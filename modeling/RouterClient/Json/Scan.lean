import RouterClient.Json.Fault
import RouterClient.Json.Number

/-! # Scanning the parts of a JSON text

The words, numbers and strings in front of a text. Each scanner gives what is left of the text
together with the fact that it is shorter, so that readers built on them come to an end.
-/

namespace RouterClient.Json

/-- What is left of a text of `n` characters after at least one of them. -/
abbrev Rest (n : Nat) := { rest : List Char // rest.length < n }

/-- The rest of a shorter text is a rest of the longer one. -/
def Rest.widen {m n : Nat} (rest : Rest m) (h : m ≤ n) : Rest n :=
  ⟨rest.1, Nat.lt_of_lt_of_le rest.2 h⟩

/-- The blanks that may stand between the parts of a JSON text. -/
def isJsonBlank (c : Char) : Bool :=
  c == ' ' || c == '\n' || c == '\t' || c == '\r'

/-- The text from its first character that is no blank. -/
def skipBlank (cs : List Char) : List Char :=
  cs.dropWhile isJsonBlank

theorem length_skipBlank_le (cs : List Char) : (skipBlank cs).length ≤ cs.length := by
  induction cs with
  | nil => simp [skipBlank]
  | cons c rest ih =>
    simp only [skipBlank] at ih ⊢
    by_cases h : isJsonBlank c = true
    · simp only [List.dropWhile_cons_of_pos h, List.length_cons]
      omega
    · simp [List.dropWhile_cons_of_neg h]

theorem length_le_succ (cs : List Char) : cs.length ≤ cs.length + 1 :=
  Nat.le_succ _

/-- A character after blanks leaves a rest. -/
theorem length_lt_of_skipBlank {cs rest : List Char} {c : Char} (h : skipBlank cs = c :: rest) :
    rest.length < cs.length := by
  have := length_skipBlank_le cs
  rw [h] at this
  exact this

/-- Skipping blanks leaves no more than there was. -/
theorem length_dropWhile_le (p : Char → Bool) (cs : List Char) :
    (cs.dropWhile p).length ≤ cs.length :=
  (List.dropWhile_suffix p).length_le

/-- The rest of a text after `word`. -/
def scanWord : (word cs : List Char) → Except Fault { rest : List Char // rest.length ≤ cs.length }
  | [], cs => .ok ⟨cs, Nat.le_refl _⟩
  | _ :: _, [] => .error .valueEnded
  | w :: word, c :: cs =>
    if c = w then
      match scanWord word cs with
      | .ok ⟨rest, h⟩ => .ok ⟨rest, Nat.le_succ_of_le h⟩
      | .error fault => .error fault
    else .error .misspelt

/-- At least one digit. -/
def scanDigits : (cs : List Char) → Except Fault (List Char × Rest cs.length)
  | [] => .error .valueEnded
  | c :: cs =>
    if c.isDigit then
      .ok (c :: cs.takeWhile Char.isDigit,
        ⟨cs.dropWhile Char.isDigit, Nat.lt_succ_of_le (length_dropWhile_le _ _)⟩)
    else .error .malformedNumber

/-- The digits before a point: a zero, or digits of which the first is none. -/
def scanWhole (cs : List Char) : Except Fault (List Char × Rest cs.length) :=
  match scanDigits cs with
  | .ok (digits, rest) =>
    if digits.length > 1 && digits.head? == some '0' then .error .malformedNumber
    else .ok (digits, rest)
  | .error fault => .error fault

/-- A point and digits, if a point comes next. -/
def scanFraction : (cs : List Char) → Except Fault (Option (List Char) × Rest (cs.length + 1))
  | '.' :: cs =>
    match scanDigits cs with
    | .ok (digits, rest) => .ok (some digits, rest.widen (by simp only [List.length_cons]; omega))
    | .error fault => .error fault
  | cs => .ok (none, ⟨cs, Nat.lt_succ_self _⟩)

/-- The sign of an exponent: whether it is negative, and the text after it. -/
def scanSign : (cs : List Char) → Bool × Rest (cs.length + 1)
  | '+' :: cs => (false, ⟨cs, by simp only [List.length_cons]; omega⟩)
  | '-' :: cs => (true, ⟨cs, by simp only [List.length_cons]; omega⟩)
  | cs => (false, ⟨cs, Nat.lt_succ_self _⟩)

/-- An exponent mark, a sign and digits, if an exponent mark comes next. -/
def scanExponent :
    (cs : List Char) → Except Fault (Option (Bool × List Char) × Rest (cs.length + 1))
  | [] => .ok (none, ⟨[], Nat.lt_succ_self _⟩)
  | c :: cs =>
    if c = 'e' ∨ c = 'E' then
      let (negative, unsigned) := scanSign cs
      match scanDigits unsigned.1 with
      | .ok (digits, rest) =>
        .ok (some (negative, digits),
          rest.widen (by have := unsigned.2; simp only [List.length_cons]; omega))
      | .error fault => .error fault
    else .ok (none, ⟨c :: cs, Nat.lt_succ_self _⟩)

/-- The numeral in front of a text that has its sign read. -/
def scanUnsigned (negative : Bool) (cs : List Char) : Except Fault (Numeral × Rest cs.length) :=
  match scanWhole cs with
  | .error fault => .error fault
  | .ok (whole, afterWhole) =>
    match scanFraction afterWhole.1 with
    | .error fault => .error fault
    | .ok (fraction, afterFraction) =>
      match scanExponent afterFraction.1 with
      | .error fault => .error fault
      | .ok (exponent, rest) =>
        .ok (⟨negative, whole, fraction, exponent⟩,
          rest.widen (by have := afterWhole.2; have := afterFraction.2; omega))

/-- The numeral in front of a text. -/
def scanNumeral (cs : List Char) : Except Fault (Numeral × Rest cs.length) :=
  match cs with
  | '-' :: cs =>
    match scanUnsigned true cs with
    | .ok (numeral, rest) => .ok (numeral, rest.widen (length_le_succ _))
    | .error fault => .error fault
  | cs => scanUnsigned false cs

def hexValue? (c : Char) : Option Nat :=
  if '0' ≤ c ∧ c ≤ '9' then some (c.toNat - 0x30)
  else if 'a' ≤ c ∧ c ≤ 'f' then some (c.toNat - 0x57)
  else if 'A' ≤ c ∧ c ≤ 'F' then some (c.toNat - 0x37)
  else none

/-- Four hexadecimal digits. A text with less than four bytes left has ended. -/
def scanHex : (cs : List Char) → Except Fault (Nat × Rest cs.length)
  | a :: b :: c :: d :: rest =>
    match hexValue? a, hexValue? b, hexValue? c, hexValue? d with
    | some a, some b, some c, some d =>
      .ok (((a * 16 + b) * 16 + c) * 16 + d, ⟨rest, by simp only [List.length_cons]; omega⟩)
    | _, _, _, _ => .error .unknownEscape
  | few =>
    if (String.ofList few).utf8ByteSize < 4 then .error .stringEnded else .error .unknownEscape

/-- The character that a backslash and `c` stand for. -/
def shortEscape? (c : Char) : Option Char :=
  if c = '"' ∨ c = '\\' ∨ c = '/' then some c
  else if c = 'b' then some '\x08'
  else if c = 'f' then some '\x0c'
  else if c = 'n' then some '\n'
  else if c = 'r' then some '\r'
  else if c = 't' then some '\t'
  else none

/-- The second half of a surrogate pair, after the half `first`. -/
def scanSecondHalf (first : Nat) : (cs : List Char) → Except Fault (Char × Rest cs.length)
  | [] | ['\\'] => .error .stringEnded
  | '\\' :: 'u' :: cs =>
    match scanHex cs with
    | .error fault => .error fault
    | .ok (second, rest) =>
      if 0xDC00 ≤ second ∧ second ≤ 0xDFFF then
        .ok (Char.ofNat (0x10000 + (first - 0xD800) * 0x400 + (second - 0xDC00)),
          rest.widen (by simp only [List.length_cons]; omega))
      else .error .loneSurrogate
  | _ => .error .unfinishedSurrogate

/-- What follows a backslash. Unless the reading is `strict`, any four digits do after a `u`,
and what they stand for is left open. -/
def scanEscape (strict : Bool) : (cs : List Char) → Except Fault (Char × Rest cs.length)
  | [] => .error .stringEnded
  | c :: cs =>
    if c = 'u' then
      match scanHex cs with
      | .error fault => .error fault
      | .ok (unit, rest) =>
        if !strict then .ok ('\x00', rest.widen (length_le_succ _))
        else if 0xDC00 ≤ unit ∧ unit ≤ 0xDFFF then .error .loneSurrogate
        else if 0xD800 ≤ unit ∧ unit ≤ 0xDBFF then
          match scanSecondHalf unit rest.1 with
          | .error fault => .error fault
          | .ok (c, after) =>
            .ok (c, after.widen (by have := rest.2; simp only [List.length_cons]; omega))
        else .ok (Char.ofNat unit, rest.widen (length_le_succ _))
    else
      match shortEscape? c with
      | some c => .ok (c, ⟨cs, Nat.lt_succ_self _⟩)
      | none => .error .unknownEscape

/-- The rest of a string whose opening quote and characters `before`, the last one first, have
been read, in a text of at most `n` characters. -/
def scanString (strict : Bool) (n : Nat) (before : List Char) (cs : List Char)
    (h : cs.length ≤ n) : Except Fault (String × Rest n) :=
  match cs with
  | [] => .error .stringEnded
  | c :: cs =>
    if c = '"' then .ok (String.ofList before.reverse, ⟨cs, h⟩)
    else if c = '\\' then
      match scanEscape strict cs with
      | .error fault => .error fault
      | .ok (c, rest) =>
        scanString strict n (c :: before) rest.1
          (by have := rest.2; simp only [List.length_cons] at h; omega)
    else if c.toNat < 0x20 then .error .controlCharacter
    else scanString strict n (c :: before) cs (by simp only [List.length_cons] at h; omega)
termination_by cs.length
decreasing_by
  · have := rest.2
    simp only [List.length_cons]
    omega
  · simp only [List.length_cons]
    omega

end RouterClient.Json
