import RouterClient.Proofs.Document.Routers

/-! # Fields that are not used

A schema may hold fields that its variant does not ask for, and a reference may stand beside a type name.
Trimming leaves the fields that are in use, at every depth.  Lowering answers a trimmed document as it
answers the document, so whatever else is written is never looked at.
-/

namespace RouterClient

open Lowering (Variant)

namespace Written

mutual

/-- The schema with the fields that its variant uses.  Of a reference nothing but the key is left. -/
def Schema.trimmed : Schema → Schema
  | ⟨some key, _, _, _, _, _, _, _, _, _, _, _, _⟩ => { reference := some key }
  | ⟨none, typeName, name, description, isGlobal, isInteger, inner, element, valueType, shape,
      values, value, options⟩ =>
    match typeName.map Variant.ofTypeName with
    | none | some (.primitive _) | some .empty | some (.unsupported _) =>
      { typeName, name, description, isGlobal }
    | some .number => { typeName, name, description, isGlobal, isInteger }
    | some .optional | some .nullable | some .transform =>
      { typeName, name, description, isGlobal, inner := trimmedChild inner }
    | some (.sequence _) => { typeName, name, description, isGlobal, element := trimmedChild element }
    | some .map => { typeName, name, description, isGlobal, valueType := trimmedChild valueType }
    | some .object => { typeName, name, description, isGlobal, shape := trimmedShape shape }
    | some .enumeration => { typeName, name, description, isGlobal, values }
    | some .literal => { typeName, name, description, isGlobal, value }
    | some .union => { typeName, name, description, isGlobal, options := trimmedOptions options }

def trimmedChild : Option Schema → Option Schema
  | none => none
  | some schema => some schema.trimmed

def trimmedShape : Option (List (String × Schema)) → Option (List (String × Schema))
  | none => none
  | some shape => some (trimmedFields shape)

def trimmedFields : List (String × Schema) → List (String × Schema)
  | [] => []
  | (key, schema) :: more => (key, schema.trimmed) :: trimmedFields more

def trimmedOptions : Option (List Schema) → Option (List Schema)
  | none => none
  | some options => some (trimmedList options)

def trimmedList : List Schema → List Schema
  | [] => []
  | schema :: more => schema.trimmed :: trimmedList more

end

def Procedure.trimmed (procedure : Procedure) : Procedure :=
  { procedure with
    input := procedure.input.map Schema.trimmed
    inputs := procedure.inputs.map Schema.trimmed
    output := procedure.output.map Schema.trimmed }

def Router.trimmed (router : Router) : Router where
  procedures := router.procedures.map fun entry => (entry.1, entry.2.trimmed)

/-- The document with the fields that are used. -/
def Document.trimmed (document : Document) : Document where
  schemas := document.schemas.map fun entry => (entry.1, entry.2.trimmed)
  routers := document.routers.map fun entry => (entry.1, entry.2.trimmed)

example : Schema.trimmed { typeName := some "string", isInteger := true, inner := some {} } =
    { typeName := some "string" } := rfl

@[simp] theorem Schema.trimmed_reference (schema : Schema) :
    schema.trimmed.reference = schema.reference := by
  obtain ⟨reference, typeName, _⟩ := schema
  cases reference with
  | some => rw [trimmed]
  | none =>
      rw [trimmed]
      split <;> rfl

end Written

namespace Lowering

open Json (Path)
open Schema (NodeId Node Graph)

variable {setting : Setting} {here : Path}

/-- A schema in place is lowered as the trimmed one when its body is. -/
theorem placed_trimmed {schema : Written.Schema} {made made' : LowerM Node}
    (same : schema.reference = none → made' = made) :
    placed setting schema.trimmed made' = placed setting schema made := by
  cases referred : schema.reference with
  | some key => simp only [placed, Written.Schema.trimmed_reference, referred]
  | none => simp only [placed, Written.Schema.trimmed_reference, referred, same referred]

mutual

theorem body_trimmed (setting : Setting) (here : Path) (schema : Written.Schema)
    (bare : schema.reference = none) : body setting here schema.trimmed = body setting here schema := by
  obtain ⟨reference, typeName, name, description, isGlobal, isInteger, inner, element, valueType,
    shape, values, value, options⟩ := schema
  obtain rfl : reference = none := bare
  cases typeName with
  | none => rfl
  | some said =>
      rw [Written.Schema.trimmed]
      cases spelled : Variant.ofTypeName said with
      | primitive | number | empty | enumeration | literal | unsupported =>
          simp only [Option.map_some, spelled, body, needed, pure_bind]
      | optional | nullable | transform =>
          have same := child_trimmed setting here "inner" inner
          simp only [Option.map_some, spelled, body, needed, pure_bind, same]
      | sequence =>
          have same := child_trimmed setting here "element" element
          simp only [Option.map_some, spelled, body, needed, pure_bind, same]
      | map =>
          have same := child_trimmed setting here "valueType" valueType
          simp only [Option.map_some, spelled, body, needed, pure_bind, same]
      | object =>
          have same := fields_trimmed setting here shape
          simp only [Option.map_some, spelled, body, needed, pure_bind, same]
      | union =>
          have same := alternatives_trimmed setting here options
          simp only [Option.map_some, spelled, body, needed, pure_bind, same]

theorem child_trimmed (setting : Setting) (here : Path) (field : String)
    (schema? : Option Written.Schema) :
    child setting here field (Written.trimmedChild schema?) = child setting here field schema? := by
  cases schema? with
  | none => rfl
  | some schema =>
      rw [Written.trimmedChild, child, child]
      exact placed_trimmed (body_trimmed setting (here ++ [.key field]) schema)

theorem fields_trimmed (setting : Setting) (here : Path)
    (shape? : Option (List (String × Written.Schema))) :
    fields setting here (Written.trimmedShape shape?) = fields setting here shape? := by
  cases shape? with
  | none => rfl
  | some shape =>
      rw [Written.trimmedShape, fields, fields]
      exact fieldsOf_trimmed setting (here ++ [.key "shape"]) shape

theorem fieldsOf_trimmed (setting : Setting) (here : Path) (shape : List (String × Written.Schema)) :
    fieldsOf setting here (Written.trimmedFields shape) = fieldsOf setting here shape := by
  cases shape with
  | nil => rfl
  | cons field more =>
      obtain ⟨key, schema⟩ := field
      have same := body_trimmed setting (here ++ [.key key]) schema
      rw [Written.trimmedFields, fieldsOf, fieldsOf, placed_trimmed same,
        fieldsOf_trimmed setting here more]

theorem alternatives_trimmed (setting : Setting) (here : Path)
    (options? : Option (List Written.Schema)) :
    alternatives setting here (Written.trimmedOptions options?) = alternatives setting here options? := by
  cases options? with
  | none => rfl
  | some options =>
      rw [Written.trimmedOptions, alternatives, alternatives]
      exact alternativesOf_trimmed setting (here ++ [.key "options"]) 0 options

theorem alternativesOf_trimmed (setting : Setting) (here : Path) (i : Nat)
    (options : List Written.Schema) :
    alternativesOf setting here i (Written.trimmedList options) =
      alternativesOf setting here i options := by
  cases options with
  | nil => rfl
  | cons schema more =>
      have same := body_trimmed setting (here ++ [.index i]) schema
      rw [Written.trimmedList, alternativesOf, alternativesOf, placed_trimmed same,
        alternativesOf_trimmed setting here (i + 1) more]

end

theorem schema_trimmed (here : Path) (written : Written.Schema) :
    schema setting here written.trimmed = schema setting here written :=
  placed_trimmed (body_trimmed setting here written)

theorem schemas_trimmed (i : Nat) (listed : List Written.Schema) :
    schemas setting here i (listed.map Written.Schema.trimmed) = schemas setting here i listed := by
  induction listed generalizing i with
  | nil => rfl
  | cons written more ih => rw [List.map_cons, schemas, schemas, schema_trimmed, ih (i + 1)]

theorem schema?_trimmed (written : Option Written.Schema) :
    schema? setting here (written.map Written.Schema.trimmed) = schema? setting here written := by
  cases written with
  | none => rfl
  | some written => rw [Option.map_some, schema?, schema?, schema_trimmed]

theorem procedure_trimmed (written : Written.Procedure) :
    procedure setting here written.trimmed = procedure setting here written := by
  simp only [procedure, Written.Procedure.trimmed, schema?_trimmed, schemas_trimmed]

theorem routers_trimmed (written : Table String Written.Router) :
    routers setting (written.map fun entry => (entry.1, entry.2.trimmed)) = routers setting written := by
  simp only [routers, Written.Router.trimmed, List.mapM_map, procedure_trimmed, Function.comp_def]

section

variable (schemas : Table String Written.Schema)

/-- The definitions with the fields that they use. -/
abbrev trimmedSchemas : Table String Written.Schema :=
  schemas.map fun entry => (entry.1, entry.2.trimmed)

theorem get?_trimmed (key : String) :
    (trimmedSchemas schemas).get? key = (schemas.get? key).map Written.Schema.trimmed := by
  induction schemas with
  | nil => rfl
  | cons entry more ih =>
      obtain ⟨k, schema⟩ := entry
      by_cases same : k = key
      · simp [Table.get?, same]
      · simpa [Table.get?, same] using ih

theorem bodyKeys_trimmed : bodyKeys (trimmedSchemas schemas) = bodyKeys schemas := by
  simp [bodyKeys, Table.keys, List.filter_map, Function.comp_def]

theorem follow_trimmed (start : String) (steps : Nat) (key : String) :
    follow (trimmedSchemas schemas) start steps key = follow schemas start steps key := by
  induction steps generalizing key with
  | zero => rfl
  | succ steps ih =>
      rw [follow, follow, get?_trimmed]
      cases schemas.get? key with
      | none => rfl
      | some schema => simp only [Option.map_some, Written.Schema.trimmed_reference, ih]

theorem definitions_trimmed : definitions (trimmedSchemas schemas) = definitions schemas := by
  simp only [definitions, List.mapM_map, bodyKeys_trimmed, follow_trimmed, List.length_map,
    Function.comp_def]

theorem fillBodies_trimmed : fillBodies setting (trimmedSchemas schemas) = fillBodies setting schemas := by
  induction schemas with
  | nil => rfl
  | cons entry more ih =>
      obtain ⟨key, schema⟩ := entry
      rw [trimmedSchemas, List.map_cons, fillBodies_cons, fillBodies_cons, ih]
      cases referred : schema.reference with
      | some => simp only [Written.Schema.trimmed_reference, referred]
      | none => simp only [Written.Schema.trimmed_reference, referred, body_trimmed _ _ _ referred]

end

/-- Only the fields in use decide what a document is lowered to, and why it is not. -/
theorem document_trimmed (origin : String) (written : Written.Document) :
    document origin written.trimmed = document origin written := by
  have bodies : bodyKeys written.trimmed.schemas = bodyKeys written.schemas := bodyKeys_trimmed _
  have made : definitions written.trimmed.schemas = definitions written.schemas := definitions_trimmed _
  have filled (setting : Setting) :
      fillBodies setting written.trimmed.schemas = fillBodies setting written.schemas :=
    fillBodies_trimmed _
  have routed (setting : Setting) :
      routers setting written.trimmed.routers = routers setting written.routers :=
    routers_trimmed _
  simp only [document, reserved, bodies, made, filled, routed]

end Lowering

end RouterClient
