import RouterClient.Proofs.Code.Outline

/-! # Properties of a struct

A property is written where it is stored, as a parameter of the initializer and in the initializer's body.
Swift decodes it from the key that the struct's coding keys give it, or else from the key that is its name.
What is written is read back here with readers that know nothing of the properties.
-/

namespace RouterClient.Code

/-- The name and the type that a line declares as a stored property. -/
def stored? (line : String) : Option (String × String) := do
  let words := (line.toList.dropPrefix? "public ".toList).getD line.toList
  let declared ← words.dropPrefix? "var ".toList
  let type ← (declared.dropWhile (· ≠ ':')).dropPrefix? ": ".toList
  return (.ofList (declared.takeWhile (· ≠ ':')), .ofList type)

/-- The property that a line sets to the parameter of the same name. -/
def assigned? (line : String) : Option String := do
  let words ← line.toList.dropPrefix? "self.".toList
  let property := words.takeWhile (· ≠ ' ')
  let parameter ← (words.dropWhile (· ≠ ' ')).dropPrefix? " = ".toList
  if parameter = property then some (.ofList property) else none

/-- The property for which a line gives a coding key, and the key: the raw value after the name, or the
name if there is none. -/
def codingKey? (line : String) : Option (String × String) := do
  let words ← line.toList.dropPrefix? "case ".toList
  let property := String.ofList (words.takeWhile (· ≠ ' '))
  let value := words.dropWhile (· ≠ ' ')
  if value.isEmpty then some (property, property) else
    let literal ← value.dropPrefix? " = \"".toList
    let (inside, rest) ← splitLiteral? literal
    let key ← unescape? inside
    if rest.isEmpty then some (property, .ofList key) else none

/-- A parameter of the initializer for a property: its name, its type and a default.  The default is `nil`
if and only if the property's type is optional, and any other one is the case that the property starts
with. -/
def Offers (property : Property) (parameter : String) : Prop :=
  ∃ default, parameter = property.name ++ ": " ++ property.type.text ++ default ∧
    (default = " = nil" ↔ property.type.isOptional = true) ∧
    (property.type.isOptional = false →
      default = "" ∨ ∃ label, property.initial = some label ∧ default = " = ." ++ label)

/-- The lines of an initializer that takes a parameter for every property and sets each property to its
own. -/
inductive Initializes (heading : Heading) (properties : List Property) : Lines → Prop where
  | bare : properties = [] → Initializes heading properties [heading.declare "init() \x7b\x7d"]
  | memberwise {parameters : List String} : properties ≠ [] → List.Forall₂ Offers properties parameters →
      Initializes heading properties
        ((heading.declare ("init(" ++ ", ".intercalate parameters ++ ")") ++ " \x7b") ::
          properties.map (fun property => "self." ++ property.name ++ " = " ++ property.name) ++ ["\x7d"])

/-- Lines that give every one of some properties its key: none where each key is the property's name, and
otherwise one case for each of them. -/
inductive Keys (properties : List Property) : Lines → Prop where
  | names : (∀ property ∈ properties, property.name = property.key) → Keys properties []
  | cases {cases : Lines} :
      (∃ property ∈ properties, property.name ≠ property.key) →
      cases.map codingKey? = properties.map (fun property => some (property.name, property.key)) →
      Keys properties ("" :: "enum CodingKeys: String, CodingKey \x7b" :: cases ++ ["\x7d"])

/-- The parts in which the properties of a struct are written: each is stored once, given its key, taken
as a parameter and assigned.  The only type that they declare is the enum of the coding keys. -/
structure Writes (heading : Heading) (properties : List Property) (stored keys initializer : Lines) :
    Prop where
  storage : stored = properties.flatMap fun property => docComment? property.description ++
    [heading.declare ("var " ++ property.name ++ ": " ++ property.type.text)]
  read : stored.filterMap stored? = properties.map fun property => (property.name, property.type.text)
  keyed : Keys properties keys
  initializes : Initializes heading properties initializer
  assigned : initializer.filterMap assigned? = properties.map Property.name
  types : (stored ++ keys ++ "" :: initializer).filterMap type? =
    if ∃ property ∈ properties, property.name ≠ property.key then ["CodingKeys"] else []

section

variable {heading : Heading} {property : Property} {properties : List Property}

/-- A word ends at the first mark after it. -/
theorem word_append {word : List Char} {mark : Char} (free : mark ∉ word) (rest : List Char)
    (ends : ∀ c ∈ rest.head?, c = mark) :
    (word ++ rest).takeWhile (· ≠ mark) = word ∧ (word ++ rest).dropWhile (· ≠ mark) = rest := by
  have passed : ∀ c ∈ word, decide (c ≠ mark) = true := by
    intro c listed
    simpa using ne_of_mem_of_not_mem listed free
  rw [List.takeWhile_append_of_pos passed, List.dropWhile_append_of_pos passed]
  cases rest with
  | nil => simp
  | cons c more => simp [ends c rfl]

theorem stored?_property (access : Access) {name : String} (free : ':' ∉ name.toList) (type : String) :
    stored? (access.modifier ++ ("var " ++ (name ++ ": " ++ type))) = some (name, type) := by
  have split : ("var " ++ (name ++ ": " ++ type)).toList =
      "var ".toList ++ (name.toList ++ (": ".toList ++ type.toList)) := by
    simp [String.toList_append]
  have bare : (("var " ++ (name ++ ": " ++ type)).toList.dropPrefix? "public ".toList) = none := by
    rw [split]
    rfl
  have declared : ((access.modifier ++ ("var " ++ (name ++ ": " ++ type))).toList.dropPrefix?
      "public ".toList).getD (access.modifier ++ ("var " ++ (name ++ ": " ++ type))).toList =
        ("var " ++ (name ++ ": " ++ type)).toList := by
    cases access with
    | internal => simp only [Access.modifier, String.empty_append, bare, Option.getD_none]
    | published =>
        rw [Access.modifier, String.toList_append, List.dropPrefix?_append_of_beq _ BEq.rfl,
          Option.getD_some]
  obtain ⟨taken, dropped⟩ := word_append free (": ".toList ++ type.toList) (by simp)
  simp only [stored?, declared]
  rw [split, List.dropPrefix?_append_of_beq _ BEq.rfl]
  simp only [Option.bind_eq_bind, Option.bind_some, taken, dropped,
    List.dropPrefix?_append_of_beq _ BEq.rfl, String.ofList_toList, Option.pure_def]

theorem stored?_comment {line : String} (comment : line.toList.head? = some '/') :
    stored? line = none := by
  obtain ⟨rest, split⟩ := List.head?_eq_some_iff.mp comment
  simp only [stored?, split]
  rfl

theorem assigned?_assignment {name : String} (free : ' ' ∉ name.toList) :
    assigned? (Property.assignment name) = some name := by
  have split : (Property.assignment name).toList =
      "self.".toList ++ (name.toList ++ (" = ".toList ++ name.toList)) := by
    simp [Property.assignment, String.toList_append]
  obtain ⟨taken, dropped⟩ := word_append free (" = ".toList ++ name.toList) (by simp)
  simp only [assigned?, split, List.dropPrefix?_append_of_beq _ BEq.rfl, Option.bind_eq_bind,
    Option.bind_some, taken, dropped, if_pos, String.ofList_toList]

/-- Only a line that starts like an assignment is one. -/
theorem assigned?_other {line : String} (other : line.toList.head? ≠ some 's') :
    assigned? line = none := by
  have none : line.toList.dropPrefix? "self.".toList = none := by
    refine Option.eq_none_iff_forall_ne_some.mpr fun rest found => ?_
    obtain ⟨start, split, same⟩ := List.dropPrefix?_eq_some_iff.mp found
    obtain rfl := eq_of_beq same
    exact other (by rw [split]; rfl)
  simp only [assigned?, none, Option.bind_eq_bind, Option.bind_none]

/-- A case is read back with its raw value, whatever the value is made of. -/
theorem codingKey?_raw {label : String} (free : ' ' ∉ label.toList) (raw : String) :
    codingKey? ("case " ++ label ++ " = " ++ literal raw) = some (label, raw) := by
  have split : ("case " ++ label ++ " = " ++ literal raw).toList =
      "case ".toList ++ (label.toList ++ (" = \"".toList ++ (escape raw.toList ++ ['"']))) := by
    simp [String.toList_append, literal_toList]
  obtain ⟨taken, dropped⟩ := word_append free
    (" = \"".toList ++ (escape raw.toList ++ ['"'])) (by simp)
  have given : (" = \"".toList ++ (escape raw.toList ++ ['"'])).isEmpty = false := rfl
  simp only [codingKey?, split, List.dropPrefix?_append_of_beq _ BEq.rfl, Option.bind_eq_bind,
    Option.bind_some, taken, dropped, given, splitLiteral?_escape, unescape?_escape,
    String.ofList_toList, List.isEmpty_nil, if_pos, Bool.false_eq_true, if_false]

theorem codingKey?_codingKey (free : ' ' ∉ property.name.toList) :
    codingKey? property.codingKey = some (property.name, property.key) := by
  unfold Property.codingKey
  split
  · next same =>
    rw [← same]
    have split : ("case " ++ property.name).toList =
        "case ".toList ++ (property.name.toList ++ []) := by
      simp [String.toList_append]
    obtain ⟨taken, dropped⟩ := word_append free [] nofun
    simp only [codingKey?, split, List.dropPrefix?_append_of_beq _ BEq.rfl, Option.bind_eq_bind,
      Option.bind_some, taken, dropped, String.ofList_toList, List.isEmpty_nil, if_pos]
  · exact codingKey?_raw free property.key

theorem offers_parameter (property : Property) : Offers property property.parameter := by
  unfold Property.parameter
  split
  · next optional => exact ⟨" = nil", rfl, by simp [optional], by simp [optional]⟩
  · next required =>
    split
    · next label initial =>
      refine ⟨" = ." ++ label, by rw [annotated, String.append_assoc], ?_, ?_⟩
      · simp [required, ← String.toList_inj, String.toList_append]
      · exact fun _ => .inr ⟨label, initial, rfl⟩
    · exact ⟨"", by simp [annotated], by simp [required], fun _ => .inl rfl⟩

theorem filterMap_stored? (heading : Heading)
    (free : ∀ property ∈ properties, ':' ∉ property.name.toList) :
    (properties.flatMap (Property.lines heading)).filterMap stored? =
      properties.map fun property => (property.name, property.type.text) := by
  rw [List.filterMap_flatMap, List.map_eq_flatMap]
  refine List.flatMap_congr fun property listed => ?_
  have comments : (docComment? property.description).filterMap stored? = [] :=
    List.filterMap_eq_nil_iff.mpr fun line written =>
      stored?_comment (docComment?_head _ line written)
  rw [Property.lines, List.filterMap_append, comments, Heading.declare, annotated]
  simp [stored?_property heading.access (free property listed)]

theorem keys_codingKeys (free : ∀ property ∈ properties, ' ' ∉ property.name.toList) :
    Keys properties (codingKeys properties) := by
  unfold codingKeys
  split
  · next renamed =>
    refine .cases (by simpa using renamed) ?_
    rw [List.map_map]
    exact List.map_congr_left fun property listed => codingKey?_codingKey (free property listed)
  · next named => exact .names (by simpa using named)

theorem initializes_memberwiseInit (heading : Heading) (properties : List Property) :
    Initializes heading properties (memberwiseInit heading properties) := by
  have offered : List.Forall₂ Offers properties (properties.map Property.parameter) :=
    List.forall₂_map_right_iff.mpr (List.forall₂_same.mpr fun property _ => offers_parameter property)
  unfold memberwiseInit
  split
  · next empty => exact .bare (List.isEmpty_iff.mp empty)
  · next given => exact .memberwise (mt List.isEmpty_iff.mpr given) offered

/-- Beside the models nested in it, a struct only declares the enum of its coding keys as a type. -/
theorem record_types (heading : Heading) (models : Model.LocalModels Declaration)
    (named : ∀ property ∈ properties, ∀ c ∈ property.name.toList, isNameChar c = true) :
    (properties.flatMap (Property.lines heading) ++ codingKeys properties ++
        "" :: memberwiseInit heading properties).filterMap type? =
      if ∃ property ∈ properties, property.name ≠ property.key then ["CodingKeys"] else [] := by
  have names : ∀ name ∈ (Declaration.record heading properties models).memberNames,
      ∀ c ∈ name.toList, isNameChar c = true := List.forall_mem_map.mpr named
  have stored := filterMap_declared?_of_map ["struct", "enum", "class"]
    (Declaration.memberLines_declarations names)
  have routines := Declaration.routineLines_types names
  rw [Declaration.memberLines] at stored
  rw [Declaration.routineLines, Declaration.writesCodingKeys] at routines
  rw [List.append_assoc, List.filterMap_append, type?, stored, ← type?, routines]
  simp [Declaration.memberKeyword]

theorem memberwiseInit_assigned (heading : Heading)
    (free : ∀ property ∈ properties, ' ' ∉ property.name.toList) :
    (memberwiseInit heading properties).filterMap assigned? = properties.map Property.name := by
  have first (text : String) : assigned? (heading.declare ("init(" ++ text)) = none := by
    apply assigned?_other
    rw [Heading.declare]
    cases heading.access <;> simp [Access.modifier, String.toList_append]
  unfold memberwiseInit
  split
  · next empty =>
    obtain rfl := List.isEmpty_iff.mp empty
    exact List.filterMap_cons_none (first ") \x7b\x7d")
  · have opened (text : String) :
        assigned? (heading.declare ("init(" ++ text ++ ")") ++ " \x7b") = none := by
      have split : heading.declare ("init(" ++ text ++ ")") ++ " \x7b" =
          heading.declare ("init(" ++ (text ++ ") \x7b")) := by
        simp [Heading.declare, ← String.toList_inj, String.toList_append]
      rw [split]
      exact first _
    have closed : assigned? "\x7d" = none := rfl
    rw [Lines.block, List.filterMap_append, List.filterMap_cons_none (opened _),
      List.filterMap_cons_none closed, List.filterMap_nil, List.append_nil, List.filterMap_map]
    rw [← List.filterMap_eq_map]
    exact List.filterMap_congr fun property listed => assigned?_assignment (free property listed)

end

/-- A struct whose properties have names of letters, digits and underscores writes each of them once, and
the models that are nested in it between its properties and their keys. -/
theorem record_writes (heading : Heading) {properties : List Property}
    (models : Model.LocalModels Declaration)
    (named : ∀ property ∈ properties, ∀ c ∈ property.name.toList, isNameChar c = true) :
    ∃ stored keys initializer,
      (Declaration.record heading properties models).lines =
        docComment? heading.description ++ ((heading.structLine ++ " \x7b") ::
          (stored ++ Lines.afterBlank (Lines.spaced (models.map fun model => model.definition.lines)) ++
            keys ++ "" :: initializer) ++ ["\x7d"]) ∧
      Writes heading properties stored keys initializer := by
  have free {mark : Char} (other : isNameChar mark = false) (property : Property)
      (listed : property ∈ properties) : mark ∉ property.name.toList := fun inside =>
    absurd (named property listed mark inside) (by simp [other])
  refine ⟨properties.flatMap (Property.lines heading), codingKeys properties,
    memberwiseInit heading properties,
    by rw [Declaration.lines, Declaration.modelLines_eq, Lines.block], ?_⟩
  exact {
    storage := List.flatMap_congr fun property _ => by
      simp only [Property.lines, annotated, String.append_assoc]
    read := filterMap_stored? heading (free (by decide))
    keyed := keys_codingKeys (free (by decide))
    initializes := initializes_memberwiseInit heading properties
    assigned := memberwiseInit_assigned heading (free (by decide))
    types := record_types heading models named }

end RouterClient.Code
