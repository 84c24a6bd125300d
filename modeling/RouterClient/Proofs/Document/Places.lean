import RouterClient.Proofs.Document.Acceptance

/-! # What is written where

The schemas of a document and the values of its literals, each at its place in words and before what stands
inside it.  Only what the type name of a schema asks for is looked at inside it, and nothing inside a
reference.  Something that stands there is in order or has a flaw, and the first flaw is that of something
before which all is in order.
-/

namespace RouterClient

open Lowering (Variant)

namespace Written

/-- The fields that some variant requires. -/
inductive Field where
  | inner
  | element
  | valueType
  | shape
  | values
  | value
  | options
  deriving DecidableEq, Repr

def Field.name : Field → String
  | inner => "inner"
  | element => "element"
  | valueType => "valueType"
  | shape => "shape"
  | values => "values"
  | value => "value"
  | options => "options"

/-- The field that a variant requires. -/
def required : Variant → Option Field
  | .optional | .nullable | .transform => some .inner
  | .sequence _ => some .element
  | .map => some .valueType
  | .object => some .shape
  | .enumeration => some .values
  | .literal => some .value
  | .union => some .options
  | .primitive _ | .number | .empty | .unsupported _ => none

/-- Whether a field is written. -/
def Schema.has (schema : Schema) : Field → Bool
  | .inner => schema.inner.isSome
  | .element => schema.element.isSome
  | .valueType => schema.valueType.isSome
  | .shape => schema.shape.isSome
  | .values => schema.values.isSome
  | .value => schema.value.isSome
  | .options => schema.options.isSome

/-- Something in a document that lowering comes to. -/
inductive Occurrence where
  | schema (schema : Schema)
  /-- The value of a literal. -/
  | value (value : Json.Value)

namespace Occurrence

/-- The occurrence is in order, whatever stands inside it: a reference to one of the keys, a schema with a
type name and the field that its variant requires, or a value that is no list and no object. -/
def Sound (keys : List String) : Occurrence → Prop
  | .schema written =>
    match written.reference with
    | some key => key ∈ keys
    | none => ∃ said, written.typeName = some said ∧
        ∀ field, required (Variant.ofTypeName said) = some field → written.has field = true
  | .value written => written.IsScalar

/-- A message about an occurrence is right. -/
inductive Breaks : Occurrence → String → Prop where
  | untyped {written : Schema} :
      written.reference = none → written.typeName = none →
      Breaks (.schema written) "missing field `type`"
  | lacking {written : Schema} {said : String} {field : Field} :
      written.reference = none → written.typeName = some said →
      required (Variant.ofTypeName said) = some field → written.has field = false →
      Breaks (.schema written) ("missing field `" ++ field.name ++ "`")
  | compound {written : Json.Value} :
      ¬ written.IsScalar → Breaks (.value written) "literal must be a scalar"

end Occurrence

/-! ## Occurrences in order -/

/-- The place of a part under its name. -/
def below (place name : String) : String :=
  place ++ "." ++ name

/-- The place of a part at its position in a list. -/
def item (place : String) (i : Nat) : String :=
  place ++ "[" ++ toString i ++ "]"

/-- A schema at a place and what is looked at inside it, which is nothing if it is a reference. -/
def Schema.around (place : String) (schema : Schema) (inside : List (String × Occurrence)) :
    List (String × Occurrence) :=
  (place, .schema schema) :: if schema.reference.isSome then [] else inside

/-- Values from position `i` of a list on. -/
def listedValues (place : String) (i : Nat) : List Json.Value → List (String × Occurrence)
  | [] => []
  | value :: more =>
    (item place i, .value value) :: listedValues place (i + 1) more

mutual

/-- What the type name of a schema asks for inside it. -/
def Schema.inside (place : String) : Schema → List (String × Occurrence)
  | ⟨_, typeName, _, _, _, _, inner, element, valueType, shape, values, value, options⟩ =>
    match typeName.map Variant.ofTypeName with
    | some .optional | some .nullable | some .transform => childInside (below place "inner") inner
    | some (.sequence _) => childInside (below place "element") element
    | some .map => childInside (below place "valueType") valueType
    | some .object => shapeInside (below place "shape") shape
    | some .enumeration => listedValues (below place "values") 0 (values.getD [])
    | some .literal => value.toList.map fun value => (below place "value", .value value)
    | some .union => optionsInside (below place "options") options
    | none | some (.primitive _) | some .number | some .empty | some (.unsupported _) => []

def childInside (place : String) : Option Schema → List (String × Occurrence)
  | none => []
  | some schema => schema.around place (schema.inside place)

def shapeInside (place : String) : Option (List (String × Schema)) → List (String × Occurrence)
  | none => []
  | some shape => fieldsInside place shape

def fieldsInside (place : String) : List (String × Schema) → List (String × Occurrence)
  | [] => []
  | (key, schema) :: more =>
    schema.around (below place key) (schema.inside (below place key)) ++ fieldsInside place more

def optionsInside (place : String) : Option (List Schema) → List (String × Occurrence)
  | none => []
  | some options => listInside place 0 options

/-- Schemas from position `i` of a list on. -/
def listInside (place : String) (i : Nat) : List Schema → List (String × Occurrence)
  | [] => []
  | schema :: more =>
    schema.around (item place i) (schema.inside (item place i)) ++ listInside place (i + 1) more

end

/-- The schemas of a procedure and what stands inside them: its input, its listed inputs, its output. -/
def Procedure.occurrences (place : String) (procedure : Procedure) : List (String × Occurrence) :=
  childInside (below place "input") procedure.input ++
    listInside (below place "inputs") 0 procedure.inputs ++
    childInside (below place "output") procedure.output

/-- The body of a definition, unless the definition is a reference. -/
def definitionInside (key : String) (schema : Schema) : List (String × Occurrence) :=
  match schema.reference with
  | some _ => []
  | none => childInside (below "schemas" key) (some schema)

/-- The bodies of the definitions and the procedures of the routers, with what stands inside them. -/
def Document.occurrences (written : Document) : List (String × Occurrence) :=
  (written.schemas.flatMap fun (key, schema) => definitionInside key schema) ++
  written.routers.flatMap fun (name, router) =>
    router.procedures.flatMap fun (path, procedure) =>
      procedure.occurrences (below (below (below "routers" name) "procedures") path)

example : (Document.occurrences { schemas := [("Form", {
    typeName := some "object"
    shape := some [("tags", { typeName := some "enum", values := some [.null, .bool true] })] })] }).map
      Prod.fst =
    ["schemas.Form", "schemas.Form.shape.tags", "schemas.Form.shape.tags.values[0]",
      "schemas.Form.shape.tags.values[1]"] := rfl

/-! ## The first flaw -/

/-- What lowering has against an occurrence. -/
inductive Flaw where
  /-- A reference to a key without a definition. -/
  | dangling (key : String)
  | broken (message : String)

def missing (field : String) : Flaw :=
  .broken ("missing field `" ++ field ++ "`")

/-- What a schema that is no reference lacks. -/
def Schema.flaw? (schema : Schema) : Option Flaw :=
  match schema.typeName with
  | none => some (missing "type")
  | some said => (required (Variant.ofTypeName said)).bind fun field =>
      if schema.has field then none else some (missing field.name)

def Occurrence.flaw? (keys : List String) : Occurrence → Option Flaw
  | .schema written =>
    match written.reference with
    | some key => if key ∈ keys then none else some (.dangling key)
    | none => written.flaw?
  | .value (.array _) | .value (.object _) => some (.broken "literal must be a scalar")
  | .value _ => none

/-- The first flaw among some occurrences, with its place. -/
def firstFlaw? (keys : List String) (occurrences : List (String × Occurrence)) :
    Option (String × Flaw) :=
  occurrences.findSome? fun entry => (entry.2.flaw? keys).map (entry.1, ·)

section

variable {keys : List String} {occurrence : Occurrence} {place : String} {schema : Schema}

theorem Occurrence.flaw?_eq_none_iff : occurrence.flaw? keys = none ↔ occurrence.Sound keys := by
  cases occurrence with
  | schema schema =>
      cases referred : schema.reference with
      | some key => simp [flaw?, Sound, referred]
      | none =>
          cases spelled : schema.typeName with
          | none => simp [flaw?, Schema.flaw?, Sound, referred, spelled]
          | some said => simp [flaw?, Schema.flaw?, Sound, referred, spelled, Option.bind_eq_none_iff]
  | value value => cases value <;> simp [flaw?, Sound, Json.Value.IsScalar]

theorem Occurrence.flaw?_eq_broken_iff {message : String} :
    occurrence.flaw? keys = some (.broken message) ↔ occurrence.Breaks message := by
  constructor
  · intro flawed
    cases occurrence with
    | schema schema =>
        cases referred : schema.reference with
        | some key =>
            simp only [flaw?, referred] at flawed
            split at flawed <;> cases flawed
        | none =>
            cases spelled : schema.typeName with
            | none =>
                simp only [flaw?, Schema.flaw?, referred, spelled] at flawed
                cases flawed
                exact .untyped referred spelled
            | some said =>
                simp only [flaw?, Schema.flaw?, referred, spelled] at flawed
                obtain ⟨field, needed, flawed⟩ := Option.bind_eq_some_iff.mp flawed
                split at flawed
                · cases flawed
                · next absent =>
                  cases flawed
                  exact .lacking referred spelled needed (Bool.eq_false_iff.mpr absent)
    | value value =>
        cases value with
        | array | object =>
            cases flawed
            exact .compound nofun
        | string | bool | null | number => cases flawed
  · intro breaks
    cases breaks with
    | untyped referred spelled =>
        simp only [flaw?, Schema.flaw?, referred, spelled]
        rfl
    | lacking referred spelled needed absent =>
        simp [flaw?, Schema.flaw?, referred, spelled, needed, absent, missing]
    | @compound value compound =>
        cases value with
        | array | object => rfl
        | string | bool | null | number => exact absurd trivial compound

/-- The first flaw is that of an occurrence before which all is in order. -/
theorem firstFlaw?_eq_some_iff {occurrences : List (String × Occurrence)} {flaw : Flaw} :
    firstFlaw? keys occurrences = some (place, flaw) ↔ ∃ before occurrence after,
      occurrences = before ++ (place, occurrence) :: after ∧
      (∀ earlier ∈ before, earlier.2.Sound keys) ∧ occurrence.flaw? keys = some flaw := by
  rw [firstFlaw?, List.findSome?_eq_some_iff]
  constructor
  · rintro ⟨before, ⟨_, occurrence⟩, after, stands, found, clear⟩
    obtain ⟨_, flawed, ⟨⟩⟩ := Option.map_eq_some_iff.mp found
    refine ⟨before, occurrence, after, stands, fun earlier member => ?_, flawed⟩
    exact Occurrence.flaw?_eq_none_iff.mp (Option.map_eq_none_iff.mp (clear earlier member))
  · rintro ⟨before, occurrence, after, stands, sound, flawed⟩
    refine ⟨before, (place, occurrence), after, stands, by rw [flawed]; rfl, fun earlier member => ?_⟩
    rw [Occurrence.flaw?_eq_none_iff.mpr (sound earlier member)]
    rfl

theorem firstFlaw?_append (first second : List (String × Occurrence)) :
    firstFlaw? keys (first ++ second) = (firstFlaw? keys first).or (firstFlaw? keys second) :=
  List.findSome?_append

theorem firstFlaw?_cons (entry : String × Occurrence) (more : List (String × Occurrence)) :
    firstFlaw? keys (entry :: more) = (firstFlaw? keys [entry]).or (firstFlaw? keys more) :=
  firstFlaw?_append [entry] more

theorem firstFlaw?_around_reference {key : String} (referred : schema.reference = some key)
    (inside : List (String × Occurrence)) : firstFlaw? keys (schema.around place inside) =
      if key ∈ keys then none else some (place, .dangling key) := by
  by_cases known : key ∈ keys <;> simp [firstFlaw?, Schema.around, Occurrence.flaw?, referred, known]

theorem firstFlaw?_around_body (bare : schema.reference = none)
    (inside : List (String × Occurrence)) : firstFlaw? keys (schema.around place inside) =
      (schema.flaw?.map (place, ·)).or (firstFlaw? keys inside) := by
  cases flawed : schema.flaw? <;>
    simp [firstFlaw?, Schema.around, Occurrence.flaw?, bare, flawed]

end

end Written

end RouterClient
