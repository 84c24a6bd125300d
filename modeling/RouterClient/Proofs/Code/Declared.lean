import RouterClient.Proofs.Code.Reading

/-! # What a line declares

A line declares something under a name: the words that it starts with are modifiers and a keyword, and the
name comes next.  The readers here know nothing of what the lines have been written for.
-/

namespace RouterClient.Text

theorem head?_pieces (mark : Char) (cs : List Char) :
    (pieces mark cs).head? = some (cs.takeWhile (· ≠ mark)) := by
  induction cs with
  | nil => rfl
  | cons c more ih =>
      by_cases marks : c = mark
      · subst marks
        simp
      · obtain ⟨piece, others, found, grown⟩ := pieces_cons_of_ne more marks
        rw [found, List.head?_cons, Option.some.injEq] at ih
        rw [grown, List.head?_cons, ih, List.takeWhile_cons_of_pos (by simpa using marks)]

end RouterClient.Text

namespace RouterClient.Code

/-- What may stand before the keyword of a declaration. -/
def modifiers : List String :=
  ["public", "private", "fileprivate", "static", "lazy"]

/-- The words that something is declared with. -/
def keywords : List String :=
  ["struct", "enum", "class", "func", "var", "let", "case"]

/-- The keyword among some words, and the name that it declares. -/
def declarationIn? : List (List Char) → Option (String × String)
  | [] => none
  | word :: more =>
    if word ∈ keywords.map String.toList then
      more.head?.map fun name => (.ofList word, .ofList (name.takeWhile isNameChar))
    else if word ∈ modifiers.map String.toList then declarationIn? more
    else none

/-- The keyword of a line that declares something, and the name. -/
def declaration? (line : String) : Option (String × String) :=
  declarationIn? (Text.pieces ' ' line.toList)

/-- The name that a line declares with one of some keywords. -/
def declared? (kinds : List String) (line : String) : Option String :=
  ((declaration? line).filter fun found => kinds.contains found.1).map Prod.snd

/-- The name that a line declares as a property. -/
def property? : String → Option String :=
  declared? ["var", "let"]

/-- The name that a line declares as a type. -/
def type? : String → Option String :=
  declared? ["struct", "enum", "class"]

/-- The name that a line declares as a method. -/
def function? : String → Option String :=
  declared? ["func"]

/-- What no declaration starts with: no keyword and no modifier starts like it. -/
def Idle (start : String) : Prop :=
  ' ' ∉ start.toList ∧ ∀ word ∈ keywords ++ modifiers, ¬ start.toList <+: word.toList

instance (start : String) : Decidable (Idle start) :=
  inferInstanceAs (Decidable (_ ∧ _))

section

variable {line name : String}

theorem declaration?_other (start : String) (starts : start.toList <+: line.toList)
    (idle : Idle start) : declaration? line = none := by
  obtain ⟨more, split⟩ := starts
  obtain ⟨blank, other⟩ := idle
  have passed : ∀ c ∈ start.toList, decide (c ≠ ' ') = true :=
    fun c listed => decide_eq_true (ne_of_mem_of_not_mem listed blank)
  have first := Text.head?_pieces ' ' line.toList
  rw [← split, List.takeWhile_append_of_pos passed] at first
  obtain ⟨others, cut⟩ := List.head?_eq_some_iff.mp first
  have apart {words : List String} (within : words ⊆ keywords ++ modifiers) :
      start.toList ++ more.takeWhile (· ≠ ' ') ∉ words.map String.toList := by
    intro listed
    obtain ⟨word, member, same⟩ := List.mem_map.mp listed
    exact other word (within member) ⟨_, same.symm⟩
  rw [declaration?, ← split, cut, declarationIn?, if_neg (apart (List.subset_append_left _ _)),
    if_neg (apart (List.subset_append_right _ _))]

/-- A modifier stands before a declaration. -/
theorem declaration?_modifier (word rest : String) (listed : word ∈ modifiers)
    (split : line.toList = word.toList ++ ' ' :: rest.toList) :
    declaration? line = declaration? rest := by
  have free : ∀ word ∈ modifiers, ' ' ∉ word.toList ∧ word.toList ∉ keywords.map String.toList := by
    decide
  obtain ⟨blank, other⟩ := free word listed
  rw [declaration?, split, Text.pieces_append_mark blank, declarationIn?, if_neg other,
    if_pos (List.mem_map_of_mem listed), declaration?]

/-- Whoever may use what is declared, its name is the same. -/
theorem declaration?_access (access : Access) (rest : String) :
    declaration? (access.modifier ++ rest) = declaration? rest := by
  cases access with
  | internal => rw [Access.modifier, String.empty_append]
  | published =>
      refine declaration?_modifier "public" rest (by decide) ?_
      rw [String.toList_append]
      rfl

/-- The name after a keyword, which some other character ends. -/
theorem declaration?_keyword (word : String) (rest : List Char) (keyword : word ∈ keywords)
    (names : ∀ c ∈ name.toList, isNameChar c = true) (ends : ∀ c ∈ rest.head?, isNameChar c = false)
    (split : line.toList = word.toList ++ ' ' :: (name.toList ++ rest)) :
    declaration? line = some (word, name) := by
  have free : ∀ word ∈ keywords, ' ' ∉ word.toList := by decide
  have passed : ∀ c ∈ name.toList, decide (c ≠ ' ') = true := by
    intro c listed
    refine decide_eq_true ?_
    rintro rfl
    cases names _ listed
  have stops : (rest.takeWhile (· ≠ ' ')).takeWhile isNameChar = [] := by
    cases rest with
    | nil => rfl
    | cons c more =>
        have other := ends c rfl
        by_cases blank : c = ' ' <;> simp [blank, other]
  have cut := Text.head?_pieces ' ' (name.toList ++ rest)
  rw [List.takeWhile_append_of_pos passed] at cut
  rw [declaration?, split, Text.pieces_append_mark (free word keyword), declarationIn?,
    if_pos (List.mem_map_of_mem keyword), cut, Option.map_some, List.takeWhile_append_of_pos names, stops,
    List.append_nil, String.ofList_toList, String.ofList_toList]

/-- What some lines declare of a kind. -/
theorem filterMap_declared? (kinds : List String) (lines : Lines) :
    lines.filterMap (declared? kinds) =
      ((lines.filterMap declaration?).filter fun found => kinds.contains found.1).map Prod.snd := by
  rw [List.filter_filterMap, List.map_filterMap]
  rfl

/-- Lines that all declare with one keyword declare either every name of a kind or none. -/
theorem filterMap_declared?_of_map (kinds : List String) {word : String} {names : List String}
    {lines : Lines} (found : lines.filterMap declaration? = names.map fun name => (word, name)) :
    lines.filterMap (declared? kinds) = if kinds.contains word then names else [] := by
  rw [filterMap_declared?, found, List.filter_map, List.map_map]
  by_cases known : word ∈ kinds <;> simp [Function.comp_def, known]

/-- Lines that only declare with other keywords declare nothing of a kind. -/
theorem filterMap_declared?_eq_nil {kinds : List String} {lines : Lines}
    (others : ∀ found ∈ lines.filterMap declaration?, found.1 ∉ kinds) :
    lines.filterMap (declared? kinds) = [] := by
  rw [filterMap_declared?, List.map_eq_nil_iff, List.filter_eq_nil_iff]
  exact fun found listed => by simpa using others found listed

end

end RouterClient.Code
