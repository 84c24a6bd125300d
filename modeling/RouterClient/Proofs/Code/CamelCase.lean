import Mathlib
import RouterClient.Proofs.Code.Identifiers

/-! # Camel case

The only separators left in camel case are underscores before a digit or at the end, and a text that has no
others is its own camel case.  What escapes the name of a type is a separator again: it comes back when the
name is formatted once more, so that the name of a type is its own name.
-/

namespace RouterClient.Code

/-- A text in camel case: letters, digits and underscores, of which none stands before a letter or another
one. -/
structure IsCamel (cs : List Char) : Prop where
  chars : ∀ c ∈ cs, c.isAlpha = true ∨ c.isDigit = true ∨ c = '_'
  scores : cs.IsChain fun c next => c = '_' → next.isAlpha = false ∧ next ≠ '_'

/-- The letters and digits of a text, in small letters. -/
def spelling (cs : List Char) : List Char :=
  (cs.filter isWordChar).map Char.toLower

section

variable {c : Char} {cs rest : List Char}

theorem isNameChar_iff : isNameChar c = true ↔ c.isAlpha = true ∨ c.isDigit = true ∨ c = '_' := by
  simp [isNameChar, isWordChar, or_assoc]

theorem isCamel_score : IsCamel ['_'] :=
  ⟨by simp, .singleton _⟩

theorem isCamel_cons : IsCamel (c :: rest) ↔
    isNameChar c = true ∧ (c = '_' → ∀ next ∈ rest.head?, next.isAlpha = false ∧ next ≠ '_') ∧
      IsCamel rest := by
  constructor
  · intro ⟨chars, scores⟩
    obtain ⟨first, later⟩ := List.forall_mem_cons.mp chars
    obtain ⟨before, chain⟩ := List.isChain_cons.mp scores
    exact ⟨isNameChar_iff.mpr first, fun score next listed => before next listed score, later, chain⟩
  · intro ⟨name, before, camel⟩
    exact ⟨List.forall_mem_cons.mpr ⟨isNameChar_iff.mp name, camel.chars⟩,
      List.isChain_cons.mpr ⟨fun next listed score => before score next listed, camel.scores⟩⟩

/-- A letter or digit may stand before anything. -/
theorem IsCamel.word (camel : IsCamel rest) (word : isWordChar c = true) : IsCamel (c :: rest) := by
  refine isCamel_cons.mpr ⟨nameChar_of_wordChar word, ?_, camel⟩
  rintro rfl
  cases word

/-- An underscore may stand before a digit. -/
theorem IsCamel.score (camel : IsCamel (c :: rest)) (digit : c.isDigit = true) :
    IsCamel ('_' :: c :: rest) := by
  refine isCamel_cons.mpr ⟨rfl, fun _ next first => ?_, camel⟩
  obtain rfl := Option.some.inj first
  refine ⟨isAlpha_of_isDigit digit, ?_⟩
  rintro rfl
  cases digit

theorem camel_isCamel (pending : Bool) (cs : List Char) : IsCamel (camel pending cs) where
  chars c listed := isNameChar_iff.mp (camel_nameChars pending cs c listed)
  scores := by
    refine (camel_scores pending cs).imp fun c next before score => ⟨isAlpha_of_isDigit (before score), ?_⟩
    rintro rfl
    cases before score

/-- What is in camel case stays as it is, also behind an underscore that may stand before it. -/
theorem camel_of_isCamel (camel' : IsCamel cs) :
    camel false cs = cs ∧
      ((∀ next ∈ cs.head?, next.isAlpha = false ∧ next ≠ '_') → camel true cs = '_' :: cs) := by
  induction cs with
  | nil => exact ⟨rfl, fun _ => rfl⟩
  | cons c rest ih =>
      obtain ⟨name, before, later⟩ := isCamel_cons.mp camel'
      obtain ⟨kept, behind⟩ := ih later
      constructor
      · by_cases word : isWordChar c = true
        · rw [camel, if_pos word, if_neg Bool.false_ne_true, kept]
        · have score : c = '_' := by simpa [isNameChar, word] using name
          rw [camel, if_neg word, behind (before score), score]
      · intro first
        obtain ⟨other, apart⟩ := first c rfl
        have word : isWordChar c = true := by simpa [isNameChar, apart] using name
        rw [camel, if_pos word, if_pos rfl, if_neg (by simp [other]), kept]

/-- The texts in camel case are those that are their own camel case. -/
theorem camelize_eq_self_iff : camelize cs = cs ↔ IsCamel cs :=
  ⟨fun same => same ▸ camel_isCamel false cs, fun camel => (camel_of_isCamel camel).1⟩

theorem camelize_camelize (cs : List Char) : camelize (camelize cs) = camelize cs :=
  camelize_eq_self_iff.mpr (camel_isCamel false cs)

/-- Camel case neither drops nor adds a letter or digit. -/
theorem spelling_camel (pending : Bool) (cs : List Char) : spelling (camel pending cs) = spelling cs := by
  have score : isWordChar '_' = false := rfl
  fun_induction camel pending cs with
  | case1 | case2 => rfl
  | case3 c rest word letter ih =>
      simp only [spelling] at ih
      simp [spelling, word, isWordChar_toUpper word, ih]
  | case4 c rest word letter ih =>
      simp only [spelling] at ih
      simp [spelling, word, score, ih]
  | case5 _ c rest word _ ih =>
      simp only [spelling] at ih
      simp [spelling, word, ih]
  | case6 _ c rest other ih =>
      simpa [spelling, other] using ih

/-! ## Names of types -/

theorem capitalize_capitalize (cs : List Char) : capitalize (capitalize cs) = capitalize cs := by
  cases cs with
  | nil => rfl
  | cons c rest => simp [capitalize]

theorem IsCamel.capitalize (camel : IsCamel cs) : IsCamel (capitalize cs) := by
  cases cs with
  | nil => exact camel
  | cons c rest =>
      obtain ⟨name, before, later⟩ := isCamel_cons.mp camel
      by_cases word : isWordChar c = true
      · exact later.word (isWordChar_toUpper word)
      · obtain rfl : c = '_' := by simpa [isNameChar, word] using name
        exact camel

theorem IsCamel.escapeDigit (camel : IsCamel cs) : IsCamel (escapeDigit cs) := by
  unfold Code.escapeDigit
  split
  · exact isCamel_score
  · split
    · next digit => exact camel.score digit
    · exact camel

theorem capitalize_escapeDigit (capital : capitalize cs = cs) :
    capitalize (escapeDigit cs) = escapeDigit cs := by
  unfold escapeDigit
  split
  · rfl
  · split
    · rfl
    · exact capital

theorem escapeDigit_escapeDigit (cs : List Char) : escapeDigit (escapeDigit cs) = escapeDigit cs := by
  obtain ⟨c, rest, split, letter⟩ := escapeDigit_head cs
  rw [split, escapeDigit, if_neg (by simp [letter])]

/-- An underscore before a letter goes away again, and the letter is a capital. -/
theorem camelize_score_cons (camel' : IsCamel (c :: rest)) (letter : c.isAlpha = true) :
    camelize ('_' :: c :: rest) = capitalize (c :: rest) := by
  have word : isWordChar c = true := by rw [isWordChar, letter, Bool.true_or]
  obtain ⟨_, _, later⟩ := isCamel_cons.mp camel'
  have score : isWordChar '_' = false := rfl
  rw [camelize, camel, if_neg (by simp [score]), camel, if_pos word, if_pos rfl, if_pos letter,
    (camel_of_isCamel later).1]
  rfl

theorem reservedTypes_letter {word : String} (listed : word ∈ reservedTypes) :
    ∃ c rest, word.toList = c :: rest ∧ c.isAlpha = true := by
  have letters : ∀ word ∈ reservedTypes, word.toList.head?.any Char.isAlpha = true := by decide
  have letter := letters word listed
  cases split : word.toList with
  | nil => simp [split] at letter
  | cons c rest => exact ⟨c, rest, rfl, by simpa [split] using letter⟩

/-- The name of a type is its own name: what sets it off from a digit or a reserved name comes back as often
as it goes away. -/
theorem typeName_typeName (text : String) : typeName (typeName text) = typeName text := by
  have formed : IsCamel (escapeDigit (capitalize (camelize text.toList))) :=
    (camel_isCamel false text.toList).capitalize.escapeDigit
  have capital := capitalize_escapeDigit (capitalize_capitalize (camelize text.toList))
  have escaped := escapeDigit_escapeDigit (capitalize (camelize text.toList))
  rw [typeName, typeName, String.toList_ofList]
  generalize escapeDigit (capitalize (camelize text.toList)) = name at formed capital escaped
  -- In both cases the name is formed again, and is reserved or not as before.
  suffices again : escapeDigit (capitalize (camelize (escapeReserved reservedTypes name))) = name by
    rw [again]
  unfold escapeReserved
  split
  · next reserved =>
    have listed : String.ofList name ∈ reservedTypes := by simpa using reserved
    obtain ⟨c, rest, split, letter⟩ := reservedTypes_letter listed
    rw [String.toList_ofList] at split
    subst split
    rw [camelize_score_cons formed letter, capital, capital, escaped]
  · rw [camelize_eq_self_iff.mpr formed, capital, escaped]

end

end RouterClient.Code
