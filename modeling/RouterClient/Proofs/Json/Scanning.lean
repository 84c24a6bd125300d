import Mathlib.Data.List.TakeWhile
import RouterClient.Proofs.Json.Grammar

/-! # Scanning follows the grammar

What a scanner takes from the front of a text is a word of the grammar, and a word of the grammar is
taken whole whatever follows it.  What follows matters for a number only, which its next character may
carry on.
-/

namespace RouterClient.Json

open Grammar

/-- A scanner's answer, with what is left of the text as it is. -/
def landed {α : Type} {n : Nat} (scanned : Except Fault (α × Rest n)) :
    Except Fault (α × List Char) :=
  scanned.map fun found => (found.1, found.2.1)

theorem landed_ok {α : Type} {n : Nat} {scanned : Except Fault (α × Rest n)} {value : α}
    {rest : List Char} (lands : landed scanned = .ok (value, rest)) :
    ∃ h, scanned = .ok (value, ⟨rest, h⟩) := by
  cases scanned with
  | error fault => cases lands
  | ok found =>
      cases lands
      exact ⟨found.2.2, rfl⟩

/-- What does not carry a number on. -/
def EndsNumber (rest : List Char) : Prop :=
  ∀ c ∈ rest.head?, c.isDigit = false ∧ c ≠ '.' ∧ c ≠ 'e' ∧ c ≠ 'E'

section

variable {cs ds other : List Char}

theorem scanWord_ok {word : List Char} {rest : { rest : List Char // rest.length ≤ cs.length }}
    (run : scanWord word cs = .ok rest) : cs = word ++ rest.1 := by
  induction word generalizing cs with
  | nil =>
      cases run
      rfl
  | cons w word ih =>
      cases cs with
      | nil => cases run
      | cons c cs =>
          simp only [scanWord] at run
          split at run
          · next same =>
            split at run
            · next found =>
              cases run
              exact congrArg₂ List.cons same (ih found)
            · cases run
          · cases run

theorem scanWord_append (word other : List Char) :
    ∃ h, scanWord word (word ++ other) = .ok ⟨other, h⟩ := by
  induction word with
  | nil => exact ⟨Nat.le_refl _, rfl⟩
  | cons w word ih =>
      obtain ⟨h, found⟩ := ih
      refine ⟨Nat.le_succ_of_le h, ?_⟩
      simp only [List.cons_append, scanWord, if_pos, found]

/-! ## Numbers -/

theorem scanDigits_ok {rest : Rest cs.length} (run : scanDigits cs = .ok (ds, rest)) :
    IsDigits ds ∧ cs = ds ++ rest.1 := by
  cases cs with
  | nil => cases run
  | cons c cs =>
      simp only [scanDigits] at run
      split at run
      · next digit =>
        cases run
        refine ⟨⟨List.cons_ne_nil _ _, ?_⟩, ?_⟩
        · exact List.forall_mem_cons.mpr ⟨digit, fun _ => List.mem_takeWhile_imp⟩
        · rw [List.cons_append, List.takeWhile_append_dropWhile]
      · cases run

theorem scanDigits_append (digits : IsDigits ds) (ends : ∀ c ∈ other.head?, c.isDigit = false) :
    landed (scanDigits (ds ++ other)) = .ok (ds, other) := by
  obtain ⟨nonempty, digits⟩ := digits
  cases ds with
  | nil => exact absurd rfl nonempty
  | cons d ds =>
      obtain ⟨first, more⟩ := List.forall_mem_cons.mp digits
      have stops : other.takeWhile Char.isDigit = [] ∧ other.dropWhile Char.isDigit = other := by
        cases other with
        | nil => exact ⟨rfl, rfl⟩
        | cons c _ => simp [ends c rfl]
      have taken : (ds ++ other).takeWhile Char.isDigit = ds := by
        rw [List.takeWhile_append_of_pos more, stops.1, List.append_nil]
      have left : (ds ++ other).dropWhile Char.isDigit = other := by
        rw [List.dropWhile_append_of_pos more, stops.2]
      simp only [List.cons_append, scanDigits, first, if_pos, landed, Except.map, taken, left]

theorem scanWhole_ok {rest : Rest cs.length} (run : scanWhole cs = .ok (ds, rest)) :
    IsWhole ds ∧ cs = ds ++ rest.1 := by
  simp only [scanWhole] at run
  split at run
  · next digits rest found =>
    split at run
    · cases run
    · next single =>
      cases run
      obtain ⟨digits, split⟩ := scanDigits_ok found
      refine ⟨⟨digits, fun zero => ?_⟩, split⟩
      obtain ⟨more, rfl⟩ := List.head?_eq_some_iff.mp zero
      cases more with
      | nil => rfl
      | cons => simp at single
  · cases run

theorem scanWhole_append (whole : IsWhole ds) (ends : ∀ c ∈ other.head?, c.isDigit = false) :
    landed (scanWhole (ds ++ other)) = .ok (ds, other) := by
  obtain ⟨digits, single⟩ := whole
  obtain ⟨_, found⟩ := landed_ok (scanDigits_append digits ends)
  have kept : ¬ (decide (ds.length > 1) && ds.head? == some '0') = true := by
    rw [Bool.and_eq_true, decide_eq_true_eq, beq_iff_eq]
    rintro ⟨long, zero⟩
    rw [single zero] at long
    exact absurd long (by decide)
  simp only [scanWhole, found, if_neg kept]
  rfl

theorem scanFraction_ok {fraction : Option (List Char)} {rest : Rest (cs.length + 1)}
    (run : scanFraction cs = .ok (fraction, rest)) :
    ∃ taken, IsFraction taken ∧ cs = taken ++ rest.1 := by
  unfold scanFraction at run
  split at run
  · next cs =>
    split at run
    · next digits rest found =>
      cases run
      obtain ⟨digits, split⟩ := scanDigits_ok found
      exact ⟨_, .digits digits, congrArg ('.' :: ·) split⟩
    · cases run
  · cases run
    exact ⟨[], .none, rfl⟩

theorem scanFraction_append (fraction : IsFraction cs) :
    ∃ kept, ∀ other, (∀ c ∈ other.head?, c.isDigit = false ∧ c ≠ '.') →
      landed (scanFraction (cs ++ other)) = .ok (kept, other) := by
  cases fraction with
  | none =>
      refine ⟨none, fun other ends => ?_⟩
      rw [List.nil_append]
      unfold scanFraction
      split
      · exact absurd rfl (ends '.' rfl).2
      · rfl
  | @digits ds digits =>
      refine ⟨some ds, fun other ends => ?_⟩
      obtain ⟨_, found⟩ := landed_ok (scanDigits_append digits fun c first => (ends c first).1)
      simp only [List.cons_append, scanFraction, found]
      rfl

/-- A sign, or none, in front of a text that does not start with one. -/
theorem scanSign_append {sign : List Char} (signed : sign = [] ∨ sign = ['+'] ∨ sign = ['-']) :
    ∃ negative, ∀ rest, (∀ c ∈ rest.head?, c ≠ '+' ∧ c ≠ '-') →
      (scanSign (sign ++ rest)).1 = negative ∧ (scanSign (sign ++ rest)).2.1 = rest := by
  rcases signed with rfl | rfl | rfl
  · refine ⟨false, fun rest unsigned => ?_⟩
    rw [List.nil_append]
    unfold scanSign
    split
    · exact absurd rfl (unsigned '+' rfl).1
    · exact absurd rfl (unsigned '-' rfl).2
    · exact ⟨rfl, rfl⟩
  · exact ⟨false, fun rest _ => ⟨rfl, rfl⟩⟩
  · exact ⟨true, fun rest _ => ⟨rfl, rfl⟩⟩

theorem scanSign_split (cs : List Char) :
    ∃ sign, (sign = [] ∨ sign = ['+'] ∨ sign = ['-']) ∧ cs = sign ++ (scanSign cs).2.1 := by
  unfold scanSign
  split
  · exact ⟨['+'], .inr (.inl rfl), rfl⟩
  · exact ⟨['-'], .inr (.inr rfl), rfl⟩
  · exact ⟨[], .inl rfl, rfl⟩

theorem scanExponent_ok {exponent : Option (Bool × List Char)} {rest : Rest (cs.length + 1)}
    (run : scanExponent cs = .ok (exponent, rest)) :
    ∃ taken, IsExponent taken ∧ cs = taken ++ rest.1 := by
  cases cs with
  | nil =>
      cases run
      exact ⟨[], .none, rfl⟩
  | cons c cs =>
      simp only [scanExponent] at run
      split at run
      · next mark =>
        obtain ⟨sign, signed, unsigned⟩ := scanSign_split cs
        split at run
        · next digits rest found =>
          cases run
          obtain ⟨digits, split⟩ := scanDigits_ok found
          refine ⟨_, .digits mark signed digits, ?_⟩
          rw [List.cons_append, List.append_assoc]
          exact congrArg (c :: ·) (unsigned.trans (congrArg (sign ++ ·) split))
        · cases run
      · cases run
        exact ⟨[], .none, rfl⟩

theorem digit_ne {c d : Char} (digit : c.isDigit = true) (other : d.isDigit = false := by decide) :
    c ≠ d := by
  rintro rfl
  simp [digit] at other

theorem landed_scanExponent {mark : Char} (marked : mark = 'e' ∨ mark = 'E') (cs : List Char) :
    landed (scanExponent (mark :: cs)) = (landed (scanDigits (scanSign cs).2.1)).map fun found =>
      (some ((scanSign cs).1, found.1), found.2) := by
  simp only [scanExponent, marked, if_pos]
  cases scanDigits (scanSign cs).2.1 <;> rfl

theorem scanExponent_append (exponent : IsExponent cs) :
    ∃ kept, ∀ other, EndsNumber other → landed (scanExponent (cs ++ other)) = .ok (kept, other) := by
  cases exponent with
  | none =>
      refine ⟨none, fun other ends => ?_⟩
      cases other with
      | nil => rfl
      | cons c other =>
          obtain ⟨_, _, small, large⟩ := ends c rfl
          simp only [List.nil_append, scanExponent, small, large, or_self, if_false]
          rfl
  | @digits mark sign ds marked signed digits =>
      obtain ⟨negative, scanned⟩ := scanSign_append signed
      refine ⟨some (negative, ds), fun other ends => ?_⟩
      obtain ⟨d, more, rfl⟩ := List.exists_cons_of_ne_nil digits.1
      have digit := digits.2 d List.mem_cons_self
      obtain ⟨sign, unsigned⟩ := scanned (d :: more ++ other) <| by
        rintro _ ⟨⟩
        exact ⟨digit_ne digit, digit_ne digit⟩
      rw [List.cons_append, List.append_assoc, landed_scanExponent marked, sign, unsigned,
        scanDigits_append digits fun c first => (ends c first).1]
      rfl

theorem scanUnsigned_ok {negative : Bool} {numeral : Numeral} {rest : Rest cs.length}
    (run : scanUnsigned negative cs = .ok (numeral, rest)) :
    ∃ whole fraction exponent, IsWhole whole ∧ IsFraction fraction ∧ IsExponent exponent ∧
      cs = whole ++ (fraction ++ (exponent ++ rest.1)) := by
  simp only [scanUnsigned] at run
  split at run
  · cases run
  · next whole afterWhole found =>
    obtain ⟨whole, split⟩ := scanWhole_ok found
    split at run
    · cases run
    · next fraction afterFraction found =>
      obtain ⟨_, fraction, split'⟩ := scanFraction_ok found
      split at run
      · cases run
      · next exponent rest found =>
        obtain ⟨_, exponent, split''⟩ := scanExponent_ok found
        cases run
        have parts := split'.trans (congrArg (_ ++ ·) split'')
        exact ⟨_, _, _, whole, fraction, exponent, split.trans (congrArg (_ ++ ·) parts)⟩

theorem scanUnsigned_append (negative : Bool) {whole fraction exponent : List Char}
    (digits : IsWhole whole) (pointed : IsFraction fraction) (scaled : IsExponent exponent) :
    ∃ numeral, ∀ other, EndsNumber other →
      landed (scanUnsigned negative (whole ++ (fraction ++ (exponent ++ other)))) =
        .ok (numeral, other) := by
  obtain ⟨keptFraction, scanFraction⟩ := scanFraction_append pointed
  obtain ⟨keptExponent, scanExponent⟩ := scanExponent_append scaled
  refine ⟨⟨negative, whole, keptFraction, keptExponent⟩, fun other ends => ?_⟩
  -- A digit goes on the whole part, a point is for the fraction, and an exponent starts with neither.
  have afterFraction : ∀ c ∈ (exponent ++ other).head?, c.isDigit = false ∧ c ≠ '.' := by
    cases scaled with
    | none => exact fun c first => ⟨(ends c first).1, (ends c first).2.1⟩
    | digits marked => rintro _ ⟨⟩; rcases marked with rfl | rfl <;> decide
  have afterWhole : ∀ c ∈ (fraction ++ (exponent ++ other)).head?, c.isDigit = false := by
    cases pointed with
    | none => exact fun c first => (afterFraction c first).1
    | digits => rintro _ ⟨⟩; decide
  obtain ⟨_, whole⟩ := landed_ok (scanWhole_append digits afterWhole)
  obtain ⟨_, fraction⟩ := landed_ok (scanFraction _ afterFraction)
  obtain ⟨_, exponent⟩ := landed_ok (scanExponent other ends)
  simp only [scanUnsigned, whole, fraction, exponent]
  rfl

theorem scanNumeral_ok {numeral : Numeral} {rest : Rest cs.length}
    (run : scanNumeral cs = .ok (numeral, rest)) :
    ∃ taken, IsNumber taken ∧ cs = taken ++ rest.1 := by
  unfold scanNumeral at run
  split at run
  · next cs =>
    split at run
    · next numeral rest found =>
      cases run
      obtain ⟨_, _, _, whole, fraction, exponent, split⟩ := scanUnsigned_ok found
      refine ⟨_, .mk (.inr rfl) whole fraction exponent, ?_⟩
      rw [List.cons_append, List.nil_append, List.cons_append, List.append_assoc, List.append_assoc]
      exact congrArg ('-' :: ·) split
    · cases run
  · obtain ⟨_, _, _, whole, fraction, exponent, split⟩ := scanUnsigned_ok run
    refine ⟨_, .mk (.inl rfl) whole fraction exponent, ?_⟩
    rw [List.nil_append, List.append_assoc, List.append_assoc]
    exact split

/-- A number starts with a digit, or with the sign in front of one. -/
theorem Grammar.IsNumber.starts (number : IsNumber cs) :
    ∃ c more, cs = c :: more ∧ (c = '-' ∨ c.isDigit = true) := by
  obtain ⟨signed, ⟨digits, _⟩, _, _⟩ := number
  rcases signed with rfl | rfl
  · obtain ⟨d, more, rfl⟩ := List.exists_cons_of_ne_nil digits.1
    exact ⟨d, _, rfl, .inr (digits.2 d List.mem_cons_self)⟩
  · exact ⟨'-', _, rfl, .inl rfl⟩

theorem landed_scanNumeral (cs : List Char) :
    landed (scanNumeral ('-' :: cs)) = landed (scanUnsigned true cs) := by
  simp only [scanNumeral]
  cases scanUnsigned true cs <;> rfl

theorem landed_scanNumeral_unsigned (unsigned : cs.head? ≠ some '-') :
    landed (scanNumeral cs) = landed (scanUnsigned false cs) := by
  unfold scanNumeral
  split
  · exact absurd rfl unsigned
  · rfl

theorem scanNumeral_append (number : IsNumber cs) :
    ∃ numeral, ∀ other, EndsNumber other →
      landed (scanNumeral (cs ++ other)) = .ok (numeral, other) := by
  obtain ⟨signed, whole, fraction, exponent⟩ := number
  rcases signed with rfl | rfl
  · obtain ⟨numeral, scanned⟩ := scanUnsigned_append false whole fraction exponent
    refine ⟨numeral, fun other ends => ?_⟩
    rw [List.nil_append, List.append_assoc, List.append_assoc, ← scanned other ends]
    apply landed_scanNumeral_unsigned
    obtain ⟨d, more, rfl⟩ := List.exists_cons_of_ne_nil whole.1.1
    rintro ⟨⟩
    exact absurd (whole.1.2 '-' List.mem_cons_self) (by decide)
  · obtain ⟨numeral, scanned⟩ := scanUnsigned_append true whole fraction exponent
    refine ⟨numeral, fun other ends => ?_⟩
    rw [List.cons_append, List.nil_append, List.cons_append, List.append_assoc, List.append_assoc,
      landed_scanNumeral, scanned other ends]

/-! ## Strings -/

theorem hexValue?_isSome {c : Char} : (hexValue? c).isSome = true ↔ IsHex c := by
  unfold hexValue? IsHex
  split
  · next digit => simp [digit]
  · next other =>
    split
    · next lower => simp [lower]
    · next other' =>
      split
      · next upper => simp [upper]
      · next other'' => simp only [other, other', other'', or_self, Option.isSome_none, Bool.false_eq_true]

theorem scanHex_ok {unit : Nat} {rest : Rest cs.length} (run : scanHex cs = .ok (unit, rest)) :
    ∃ a b c d, (∀ digit ∈ [a, b, c, d], IsHex digit) ∧ cs = a :: b :: c :: d :: rest.1 := by
  unfold scanHex at run
  split at run
  · next a b c d rest =>
    split at run
    · next first second third fourth =>
      cases run
      refine ⟨a, b, c, d, ?_, rfl⟩
      simp only [List.forall_mem_cons, ← hexValue?_isSome, first, second, third, fourth]
      simp
    · cases run
  · split at run <;> cases run

/-- Four hexadecimal digits are a number, whatever follows. -/
theorem scanHex_append {a b c d : Char} (hex : ∀ digit ∈ [a, b, c, d], IsHex digit) :
    ∃ unit, ∀ other, landed (scanHex (a :: b :: c :: d :: other)) = .ok (unit, other) := by
  simp only [List.forall_mem_cons, ← hexValue?_isSome, Option.isSome_iff_exists] at hex
  obtain ⟨⟨_, first⟩, ⟨_, second⟩, ⟨_, third⟩, ⟨_, fourth⟩, _⟩ := hex
  exact ⟨_, fun other => by simp only [scanHex, first, second, third, fourth]; rfl⟩

theorem shortEscape?_isSome {c : Char} : (shortEscape? c).isSome = true ↔ c ∈ shortEscapes := by
  unfold shortEscape? shortEscapes
  split
  · next same => rcases same with rfl | rfl | rfl <;> simp
  · next other =>
    simp only [not_or] at other
    simp only [List.mem_cons, other, false_or, List.not_mem_nil, or_false]
    repeat split <;> simp_all

/-- An escape whose meaning is left open is one of the grammar. -/
theorem scanEscape_ok {c : Char} {rest : Rest cs.length} (run : scanEscape false cs = .ok (c, rest)) :
    ∃ taken, cs = taken ++ rest.1 ∧
      ∀ {inside}, IsChars inside → IsChars ('\\' :: (taken ++ inside)) := by
  cases cs with
  | nil => cases run
  | cons e cs =>
      simp only [scanEscape] at run
      split at run
      · next unicode =>
        subst unicode
        split at run
        · cases run
        · next found =>
          cases run
          obtain ⟨a, b, c, d, hex, split⟩ := scanHex_ok found
          exact ⟨['u', a, b, c, d], congrArg ('u' :: ·) split, .unicode hex⟩
      · split at run
        · next known =>
          cases run
          have short := shortEscape?_isSome.mp (by rw [known]; rfl)
          exact ⟨[e], rfl, .short short⟩
        · cases run

/-- A string that is read loosely is one of the grammar. -/
theorem scanString_ok {n : Nat} {before : List Char} {h : cs.length ≤ n} {text : String} {rest : Rest n}
    (run : scanString false n before cs h = .ok (text, rest)) :
    ∃ inside, IsChars inside ∧ cs = inside ++ '"' :: rest.1 := by
  induction size : cs.length using Nat.strong_induction_on generalizing cs before with
  | _ size ih =>
      subst size
      unfold scanString at run
      split at run
      · cases run
      · next c cs h =>
        split at run
        · next quote =>
          cases run
          exact ⟨[], .nil, by rw [quote]; rfl⟩
        · next other =>
          split at run
          · next slash =>
            split at run
            · cases run
            · next e left found =>
              obtain ⟨taken, split, escapes⟩ := scanEscape_ok found
              obtain ⟨inside, valid, split'⟩ := ih _ (Nat.lt_succ_of_lt left.2) run rfl
              refine ⟨_, escapes valid, ?_⟩
              rw [List.cons_append, List.append_assoc, slash]
              exact congrArg ('\\' :: ·) (split.trans (congrArg (taken ++ ·) split'))
          · next plain =>
            split at run
            · cases run
            · next printable =>
              obtain ⟨inside, valid, split⟩ := ih _ (Nat.lt_succ_self _) run rfl
              exact ⟨c :: inside, .plain other plain (Nat.not_lt.mp printable) valid,
                congrArg (c :: ·) split⟩

/-- How a scanner takes one character from the inside of a string of some length, whatever follows the
string.  Only a strict one can stop. -/
inductive Takes (strict : Bool) (size : Nat) (scanned : List Char → Except Fault (Char × List Char)) :
    Prop where
  | stops {fault} : strict = true → (∀ other, scanned other = .error fault) → Takes strict size scanned
  | goes {c inside} :
      IsChars inside → inside.length < size →
      (∀ other, scanned other = .ok (c, inside ++ '"' :: other)) → Takes strict size scanned

theorem landed_scanSecondHalf (first : Nat) (cs : List Char) :
    landed (scanSecondHalf first ('\\' :: 'u' :: cs)) = (landed (scanHex cs)).bind fun found =>
      if 0xDC00 ≤ found.1 ∧ found.1 ≤ 0xDFFF then
        .ok (Char.ofNat (0x10000 + (first - 0xD800) * 0x400 + (found.1 - 0xDC00)), found.2)
      else .error .loneSurrogate := by
  simp only [scanSecondHalf]
  cases scanHex cs with
  | error fault => rfl
  | ok found =>
      by_cases low : 0xDC00 ≤ found.1 ∧ found.1 ≤ 0xDFFF <;>
        simp [landed, Except.map, Except.bind, Rest.widen, low]

theorem scanSecondHalf_unfinished (first : Nat) (nonempty : cs ≠ []) (unfinished : cs ≠ ['\\'])
    (other : ∀ rest, cs ≠ '\\' :: 'u' :: rest) :
    scanSecondHalf first cs = .error .unfinishedSurrogate := by
  unfold scanSecondHalf
  split
  · exact absurd rfl nonempty
  · exact absurd rfl unfinished
  · exact absurd rfl (other _)
  · rfl

theorem scanSecondHalf_append (first : Nat) (valid : IsChars cs) :
    Takes true cs.length fun other => landed (scanSecondHalf first (cs ++ '"' :: other)) := by
  have none (cs : List Char) (unfinished : ∀ other, cs ++ '"' :: other ≠ ['\\'])
      (other : ∀ other rest, cs ++ '"' :: other ≠ '\\' :: 'u' :: rest) :
      Takes true cs.length fun other => landed (scanSecondHalf first (cs ++ '"' :: other)) := by
    refine .stops rfl fun after => show _ = Except.error Fault.unfinishedSurrogate from ?_
    rw [scanSecondHalf_unfinished first (by simp) (unfinished after) (other after)]
    rfl
  cases valid with
  | nil => exact none [] nofun nofun
  | plain _ slash => exact none _ (by simp) (by simp [slash])
  | short listed =>
      refine none _ (by simp) ?_
      rintro other rest ⟨⟩
      simp [shortEscapes] at listed
  | unicode hex valid =>
      obtain ⟨unit, scanned⟩ := scanHex_append hex
      by_cases low : 0xDC00 ≤ unit ∧ unit ≤ 0xDFFF
      · have shorter (a b c d : Char) (cs : List Char) :
            cs.length < ('\\' :: 'u' :: a :: b :: c :: d :: cs).length := by
          simp only [List.length_cons]
          omega
        refine .goes (c := Char.ofNat (0x10000 + (first - 0xD800) * 0x400 + (unit - 0xDC00))) valid
          (shorter _ _ _ _ _) fun other => ?_
        simp only [List.cons_append]
        rw [landed_scanSecondHalf, scanned, Except.bind, if_pos low]
      · refine .stops rfl fun other => show _ = Except.error Fault.loneSurrogate from ?_
        simp only [List.cons_append]
        rw [landed_scanSecondHalf, scanned, Except.bind, if_neg low]

theorem landed_scanEscape (strict : Bool) (cs : List Char) :
    landed (scanEscape strict ('u' :: cs)) = (landed (scanHex cs)).bind fun found =>
      if !strict then .ok ('\x00', found.2)
      else if 0xDC00 ≤ found.1 ∧ found.1 ≤ 0xDFFF then .error .loneSurrogate
      else if 0xD800 ≤ found.1 ∧ found.1 ≤ 0xDBFF then landed (scanSecondHalf found.1 found.2)
      else .ok (Char.ofNat found.1, found.2) := by
  simp only [scanEscape, if_pos]
  cases scanHex cs with
  | error fault => rfl
  | ok found =>
      cases strict with
      | false => rfl
      | true =>
          by_cases low : 0xDC00 ≤ found.1 ∧ found.1 ≤ 0xDFFF
          · simp [landed, Except.map, Except.bind, low]
          · by_cases high : 0xD800 ≤ found.1 ∧ found.1 ≤ 0xDBFF
            · simp only [landed, Except.map, Except.bind, low, high, and_self, if_pos]
              cases scanSecondHalf found.1 found.2.1 <;> simp [Rest.widen]
            · simp [landed, Except.map, Except.bind, Rest.widen, low, high]

theorem scanEscape_append (strict : Bool) (valid : IsChars ('\\' :: cs)) :
    Takes strict cs.length fun other => landed (scanEscape strict (cs ++ '"' :: other)) := by
  generalize escaped : '\\' :: cs = text at valid
  cases valid with
  | nil => cases escaped
  | plain _ slash => exact absurd (List.cons.inj escaped).1.symm slash
  | @short c inside listed valid =>
      obtain rfl := (List.cons.inj escaped).2
      obtain ⟨meant, known⟩ := Option.isSome_iff_exists.mp (shortEscape?_isSome.mpr listed)
      have other : c ≠ 'u' := by
        rintro rfl
        simp [shortEscapes] at listed
      refine .goes (c := meant) valid (Nat.lt_succ_self _) fun rest => ?_
      simp only [List.cons_append, scanEscape, if_neg other, known]
      rfl
  | @unicode a b c d inside hex valid =>
      obtain rfl := (List.cons.inj escaped).2
      obtain ⟨unit, scanned⟩ := scanHex_append hex
      have reads (other : List Char) := landed_scanEscape strict
        (a :: b :: c :: d :: (inside ++ '"' :: other))
      simp only [scanned, Except.bind] at reads
      simp only [List.cons_append, reads]
      have shorter : inside.length < ('u' :: a :: b :: c :: d :: inside).length := by
        simp only [List.length_cons]
        omega
      cases strict with
      | false => exact .goes valid shorter fun _ => rfl
      | true =>
          simp only [Bool.not_true, Bool.false_eq_true, if_false]
          by_cases low : 0xDC00 ≤ unit ∧ unit ≤ 0xDFFF
          · exact .stops rfl fun _ => if_pos low
          · simp only [if_neg low]
            by_cases high : 0xD800 ≤ unit ∧ unit ≤ 0xDBFF
            · simp only [if_pos high]
              cases scanSecondHalf_append unit valid with
              | stops _ stopped => exact .stops rfl stopped
              | goes valid fewer gone => exact .goes valid (fewer.trans shorter) gone
            · exact .goes valid shorter fun _ => if_neg high

theorem scanString_stops {strict : Bool} {n : Nat} {before : List Char} {fault : Fault}
    (stopped : landed (scanEscape strict cs) = .error fault) (h : ('\\' :: cs).length ≤ n) :
    landed (scanString strict n before ('\\' :: cs) h) = .error fault := by
  rw [scanString, if_neg (by decide), if_pos rfl]
  cases scanned : scanEscape strict cs with
  | error other =>
      rw [scanned] at stopped
      cases stopped
      rfl
  | ok found =>
      rw [scanned] at stopped
      cases stopped

theorem scanString_goes {strict : Bool} {n : Nat} {rest : List Char} {c : Char}
    (gone : landed (scanEscape strict cs) = .ok (c, rest)) (before : List Char)
    (h : ('\\' :: cs).length ≤ n) :
    ∃ h', landed (scanString strict n before ('\\' :: cs) h) =
      landed (scanString strict n (c :: before) rest h') := by
  obtain ⟨shorter, scanned⟩ := landed_ok gone
  have within : rest.length ≤ n := (Nat.le_of_lt shorter).trans ((Nat.le_succ _).trans h)
  refine ⟨within, ?_⟩
  rw [scanString, if_neg (by decide), if_pos rfl]
  simp only [scanned]

/-- A string of the grammar is read to its closing quote, with a text or a fault that does not depend on
what follows.  Read loosely, it has no fault. -/
theorem scanString_append (strict : Bool) (valid : IsChars cs) (before : List Char) :
    ∃ kept : Except Fault String, (strict = false → ∃ text, kept = .ok text) ∧
      ∀ n other h, landed (scanString strict n before (cs ++ '"' :: other) h) =
        kept.map fun text => (text, other) := by
  induction size : cs.length using Nat.strong_induction_on generalizing cs before with
  | _ size ih =>
      subst size
      have escaped {more : List Char} (whole : cs = '\\' :: more) :
          ∃ kept : Except Fault String, (strict = false → ∃ text, kept = .ok text) ∧
            ∀ n other h, landed (scanString strict n before (cs ++ '"' :: other) h) =
              kept.map fun text => (text, other) := by
        subst whole
        cases scanEscape_append strict valid with
        | @stops fault isStrict stopped =>
            refine ⟨.error fault, fun loose => ?_, fun n other h => scanString_stops (stopped other) h⟩
            rw [isStrict] at loose
            cases loose
        | @goes c inside valid shorter gone =>
            obtain ⟨kept, loose, scanned⟩ :=
              ih _ (Nat.lt_succ_of_lt shorter) valid (c :: before) rfl
            refine ⟨kept, loose, fun n other h => ?_⟩
            obtain ⟨h', same⟩ := scanString_goes (gone other) before h
            exact same.trans (scanned n other h')
      cases valid with
      | nil =>
          refine ⟨.ok (String.ofList before.reverse), fun _ => ⟨_, rfl⟩, fun n other h => ?_⟩
          simp only [List.nil_append]
          rw [scanString, if_pos rfl]
          rfl
      | @plain c cs quote slash printable valid =>
          obtain ⟨kept, loose, scanned⟩ := ih cs.length (Nat.lt_succ_self _) valid (c :: before) rfl
          refine ⟨kept, loose, fun n other h => ?_⟩
          simp only [List.cons_append]
          rw [scanString, if_neg quote, if_neg slash, if_neg (Nat.not_lt.mpr printable)]
          exact scanned n other _
      | short => exact escaped rfl
      | unicode => exact escaped rfl

end

end RouterClient.Json
