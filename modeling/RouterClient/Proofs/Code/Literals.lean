import Mathlib.Data.List.DropRight
import RouterClient.Proofs.Code.Reading

/-! # String literals, read back

A literal is read in two ways: as Swift reads it, which looks for the quote that closes it and undoes the
escapes before that, and as the layout does, which only wants to know where code goes on.  Both readers come
out of a literal behind its last character, whatever text it stands for and whatever follows it.
-/

namespace RouterClient.Code

/-- Whether a backslash that escapes the next character has just been read: one that is not escaped itself. -/
def escapes (behind : Bool) (c : Char) : Bool :=
  c == '\\' && !behind

/-- How many backslashes a text ends in. -/
def trailingBackslashes (cs : List Char) : Nat :=
  (cs.rtakeWhile (· == '\\')).length

section

variable {text before after : List Char}

/-- What follows a text is escaped when the text ends in an odd number of backslashes. -/
theorem foldl_escapes (cs : List Char) :
    cs.foldl escapes false = true ↔ trailingBackslashes cs % 2 = 1 := by
  induction cs using List.reverseRecOn with
  | nil => decide
  | append_singleton cs c ih =>
      have next : (cs ++ [c]).foldl escapes false = escapes (cs.foldl escapes false) c :=
        List.foldl_append
      rw [next, trailingBackslashes, List.rtakeWhile_concat]
      by_cases slash : c = '\\'
      · have even : escapes (cs.foldl escapes false) c = true ↔ ¬ trailingBackslashes cs % 2 = 1 := by
          rw [← ih]
          simp [escapes, slash]
        rw [even, if_pos (beq_iff_eq.mpr slash), List.length_append]
        simp only [trailingBackslashes, List.length_singleton]
        omega
      · simp [escapes, slash]

/-- Between the quotes of a literal, every quote is escaped. -/
theorem escape_quote (split : escape text = before ++ '"' :: after) :
    before.foldl escapes false = true := by
  induction text generalizing before with
  | nil => simp at split
  | cons c text ih =>
      rw [escape_cons] at split
      rcases escapeChar_cases c with ⟨plain, quote, slash⟩ | ⟨d, escaped, _⟩
      · rw [plain] at split
        cases before with
        | nil => exact absurd (List.cons.inj split).1 quote
        | cons first before =>
            obtain ⟨rfl, rest⟩ := List.cons.inj split
            have unescaped : escapes false c = false := by simp [escapes, slash]
            rw [List.foldl_cons, unescaped]
            exact ih rest
      · rw [escaped] at split
        cases before with
        | nil => cases (List.cons.inj split).1
        | cons first before =>
            obtain ⟨rfl, pair⟩ := List.cons.inj split
            -- The character behind the backslash is the quote in question, or the quote comes later.
            cases before with
            | nil => rfl
            | cons second before =>
                obtain ⟨rfl, rest⟩ := List.cons.inj pair
                have done : escapes (escapes false '\\') d = false := by simp [escapes]
                rw [List.foldl_cons, List.foldl_cons, done]
                exact ih rest

end

theorem escape_whole (text : List Char) : '\n' ∉ escape text ∧ '\r' ∉ escape text := by
  have each (d : Char) (listed : d ∈ escape text) : d ≠ '\n' ∧ d ≠ '\r' := by
    obtain ⟨c, _, inside⟩ := List.mem_flatMap.mp listed
    exact escapeChar_whole c d inside
  exact ⟨fun feed => (each _ feed).1 rfl, fun carriage => (each _ carriage).2 rfl⟩

theorem literal_injective {text other : String} (same : literal text = literal other) : text = other := by
  have chars := congrArg String.toList same
  rw [literal_toList, literal_toList, List.cons_append, List.cons_append, List.cons_inj_right,
    List.append_left_inj] at chars
  have read := congrArg unescape? chars
  rw [unescape?_escape, unescape?_escape] at read
  exact String.toList_inj.mp (Option.some.inj read)

/-- Wherever it stands in code, a literal leads the reader of a line back to code. -/
theorem literal_read (text : String) (slash : Bool) (seen : Braces) :
    (literal text).toList.foldl LineState.step (.code slash, seen) = (.code false, seen) := by
  have opened : LineState.step (.code slash, seen) '"' = LineState.step (.code false, seen) '"' := rfl
  have read := (literal_passed text).read seen
  rw [literal_toList, List.cons_append, List.foldl_cons] at read ⊢
  rw [opened, read]

theorem countBraces_literal (text : String) (rest : List Char) :
    countBraces ((literal text).toList ++ rest) = countBraces rest := by
  rw [countBraces, List.foldl_append, literal_read, countBraces]

/-- A literal is its text in quotes, escaped.  Nothing between the quotes ends the line or the literal, so that
Swift reads the literal up to its last quote whatever follows, and the escapes undone give the text back: no
two texts have one literal.  The layout counts no brace in a literal and meets no comment, and counts what
follows it as if it stood alone. -/
theorem literal_read_back :
    (∀ text : String,
      (literal text).toList = '"' :: escape text.toList ++ ['"'] ∧
      ('\n' ∉ escape text.toList ∧ '\r' ∉ escape text.toList) ∧
      (∀ before after, escape text.toList = before ++ '"' :: after →
        trailingBackslashes before % 2 = 1) ∧
      (∀ rest, splitLiteral? (escape text.toList ++ '"' :: rest) = some (escape text.toList, rest)) ∧
      unescape? (escape text.toList) = some text.toList) ∧
    (∀ text other : String, literal text = literal other ↔ text = other) ∧
    (∀ (text : String) (rest : List Char),
      countBraces ((literal text).toList ++ rest) = countBraces rest) ∧
    ∀ (text : String) (slash : Bool) (seen : Braces),
      (literal text).toList.foldl LineState.step (.code slash, seen) = (.code false, seen) := by
  refine ⟨fun text => ⟨literal_toList text, escape_whole text.toList, fun before after split => ?_,
    splitLiteral?_escape text.toList, unescape?_escape text.toList⟩, ?_, countBraces_literal,
    literal_read⟩
  · exact (foldl_escapes before).mp (escape_quote split)
  · exact fun text other => ⟨literal_injective, congrArg literal⟩

/-- A quote behind a backslash stands behind three backslashes in the literal. -/
theorem literal_read_back_quote :
    escape ['\\', '"', '\x7b'] = ['\\', '\\', '\\'] ++ '"' :: ['\x7b'] ∧
      trailingBackslashes ['\\', '\\', '\\'] % 2 = 1 := by
  have split : escape ['\\', '"', '\x7b'] = ['\\', '\\', '\\'] ++ '"' :: ['\x7b'] := by decide
  have same : "\\\"\x7b".toList = ['\\', '"', '\x7b'] := by decide
  refine ⟨split, (literal_read_back.1 "\\\"\x7b").2.2.1 _ ['\x7b'] ?_⟩
  rw [same]
  exact split

end RouterClient.Code
