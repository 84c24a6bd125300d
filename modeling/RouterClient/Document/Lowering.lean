import RouterClient.Document.Written
import RouterClient.Failure

/-! # From written documents to schema graphs

Every definition that has a body and every schema written in place becomes a node of its own;
a reference becomes the node of the definition it leads to. Definitions take the first positions,
so that they may refer to each other in any order, and a schema in place takes its position after
those of the schemas inside it.
-/

namespace RouterClient

open Json (Path Mistake)
open Schema (NodeId Graph Kind Node Label Literal Primitive Arrangement)

/-- A router definition document: its schemas as a graph, and the procedures of its routers. -/
structure Document where
  graph : Graph := {}
  /-- The node of each definition, in the order of the document. -/
  definitions : Table String NodeId := []
  routers : Table String (Table String Route.Procedure) := []
  deriving Inhabited

namespace Lowering

/-- What a type name says about the fields that a schema needs. -/
inductive Variant where
  | primitive (p : Primitive)
  /-- A number, which is an integer when the schema says so. -/
  | number
  | empty
  | optional
  | nullable
  /-- An array or a set, which has an element. -/
  | sequence (arrangement : Arrangement)
  /-- A map, which has a value type. -/
  | map
  | object
  | enumeration
  | literal
  | union
  | transform
  | unsupported (typeName : String)
  deriving DecidableEq, Repr

/-- The variants with their type names. -/
def Variant.known : List (String × Variant) :=
  [ ("string", .primitive .string), ("symbol", .primitive .string),
    ("number", .number),
    ("integer", .primitive .integer), ("bigint", .primitive .integer),
    ("boolean", .primitive .boolean),
    ("date", .primitive .timestamp),
    ("any", .primitive .any), ("unknown", .primitive .any),
    ("void", .empty), ("undefined", .empty), ("null", .empty), ("never", .empty), ("nan", .empty),
    ("optional", .optional),
    ("nullable", .nullable),
    ("array", .sequence .array), ("set", .sequence .set),
    ("record", .map), ("map", .map),
    ("object", .object),
    ("enum", .enumeration),
    ("literal", .literal),
    ("union", .union),
    ("effects", .transform), ("transform", .transform), ("default", .transform),
    ("catch", .transform), ("branded", .transform), ("readonly", .transform),
    ("lazy", .transform), ("promise", .transform), ("pipeline", .transform) ]

/-- The variant that a type name stands for. -/
def Variant.ofTypeName (typeName : String) : Variant :=
  (known.lookup typeName).getD (.unsupported typeName)

/-- What a schema in place is lowered with. -/
structure Setting where
  origin : String
  definitions : Table String NodeId

/-- Lowering adds nodes to a graph, or fails. -/
abbrev LowerM := StateT Graph (Except Failure)

/-- A problem at a place of the document. -/
def invalid {α : Type} (setting : Setting) (place : Path) (problem : Json.Problem) : LowerM α :=
  throw (.parse setting.origin ⟨place, problem⟩)

/-- A field that the schema's variant needs. -/
def needed {α : Type} (setting : Setting) (place : Path) (name : String) : Option α → LowerM α
  | some value => pure value
  | none => invalid setting place (.missingField name)

/-- A literal, which is no list and no object. -/
def literal (setting : Setting) (place : Path) : Json.Value → LowerM Literal
  | .string text => pure (.string text)
  | .bool b => pure (.bool b)
  | .null => pure .null
  | .number n => pure (.number n.toFloat)
  | .array _ | .object _ => invalid setting place .notAScalar

/-- Literals from position `i` of a list on. -/
def literals (setting : Setting) (place : Path) (i : Nat) : List Json.Value → LowerM (List Literal)
  | [] => pure []
  | value :: more => do
    let first ← literal setting (place ++ [.index i]) value
    let others ← literals setting place (i + 1) more
    return first :: others

/-- Put a node at the next position of the graph. -/
def place (node : Node) : LowerM NodeId :=
  modifyGet (·.add node)

/-- The node of a schema: that of the definition it refers to, or a new one for its body. -/
def placed (setting : Setting) (schema : Written.Schema) (body : LowerM Node) : LowerM NodeId :=
  match schema.reference with
  | some key =>
    match setting.definitions.get? key with
    | some id => pure id
    | none => throw (.unknownReference key)
  | none => do place (← body)

mutual

/-- The node that a schema's body describes. -/
def body (setting : Setting) (here : Path) : Written.Schema → LowerM Node
  | ⟨_, typeName, name, description, isGlobal, isInteger, inner, element, valueType, shape,
      values, value, options⟩ => do
    let typeName ← needed setting here "type" typeName
    let kind : Kind ← match Variant.ofTypeName typeName with
      | .primitive p => pure (.primitive p)
      | .number => pure (.primitive (if isInteger then .integer else .float))
      | .empty => pure .empty
      | .optional => .optional <$> child setting here "inner" inner
      | .nullable => .nullable <$> child setting here "inner" inner
      | .sequence arrangement => .collection arrangement <$> child setting here "element" element
      | .map => .collection .map <$> child setting here "valueType" valueType
      | .object => .object <$> fields setting here shape
      | .enumeration => do
        let values ← needed setting here "values" values
        .enumeration <$> literals setting (here ++ [.key "values"]) 0 values
      | .literal => do
        let value ← needed setting here "value" value
        .literal <$> literal setting (here ++ [.key "value"]) value
      | .union => .union <$> alternatives setting here options
      | .transform => .transform <$> child setting here "inner" inner
      | .unsupported typeName => pure (.unsupported typeName)
    return { kind, label := { name, description, isGlobal } }

/-- The schema that a field holds. -/
def child (setting : Setting) (here : Path) (field : String) :
    Option Written.Schema → LowerM NodeId
  | none => invalid setting here (.missingField field)
  | some schema => placed setting schema (body setting (here ++ [.key field]) schema)

/-- The fields of an object. -/
def fields (setting : Setting) (here : Path) :
    Option (List (String × Written.Schema)) → LowerM (List (String × NodeId))
  | none => invalid setting here (.missingField "shape")
  | some shape => fieldsOf setting (here ++ [.key "shape"]) shape

/-- Fields, each at its key. -/
def fieldsOf (setting : Setting) (here : Path) :
    List (String × Written.Schema) → LowerM (List (String × NodeId))
  | [] => pure []
  | (key, schema) :: more => do
    let first ← placed setting schema (body setting (here ++ [.key key]) schema)
    let others ← fieldsOf setting here more
    return (key, first) :: others

/-- The options of a union. -/
def alternatives (setting : Setting) (here : Path) :
    Option (List Written.Schema) → LowerM (List NodeId)
  | none => invalid setting here (.missingField "options")
  | some options => alternativesOf setting (here ++ [.key "options"]) 0 options

/-- Options from position `i` on. -/
def alternativesOf (setting : Setting) (here : Path) (i : Nat) :
    List Written.Schema → LowerM (List NodeId)
  | [] => pure []
  | schema :: more => do
    let first ← placed setting schema (body setting (here ++ [.index i]) schema)
    let others ← alternativesOf setting here (i + 1) more
    return first :: others

end

/-- The node of a schema in place. -/
def schema (setting : Setting) (here : Path) (written : Written.Schema) : LowerM NodeId :=
  placed setting written (body setting here written)

/-- The nodes of schemas from position `i` of a list on. -/
def schemas (setting : Setting) (here : Path) (i : Nat) :
    List Written.Schema → LowerM (List NodeId)
  | [] => pure []
  | written :: more => do
    let first ← schema setting (here ++ [.index i]) written
    let others ← schemas setting here (i + 1) more
    return first :: others

/-- A schema that may be absent. -/
def schema? (setting : Setting) (here : Path) : Option Written.Schema → LowerM (Option NodeId)
  | none => pure none
  | some written => some <$> schema setting here written

/-- A procedure: its one input, its listed inputs, its output. -/
def procedure (setting : Setting) (here : Path) (written : Written.Procedure) :
    LowerM Route.Procedure := do
  let input ← schema? setting (here ++ [.key "input"]) written.input
  let inputs ← schemas setting (here ++ [.key "inputs"]) 0 written.inputs
  let output ← schema? setting (here ++ [.key "output"]) written.output
  return {
    kind := written.kind
    inputs := input.toList ++ inputs
    output
    remark := written.remark }

/-- The key of the body that a chain of references leads to, in at most `steps` steps. A chain
that takes more steps than there are definitions is a loop. -/
def follow (written : Table String Written.Schema) (start : String) :
    (steps : Nat) → (key : String) → Except Failure String
  | 0, _ => .error (.aliasCycle start)
  | steps + 1, key =>
    match written.get? key with
    | none => .error (.unknownReference key)
    | some schema =>
      match schema.reference with
      | none => .ok key
      | some next => follow written start steps next

/-- The keys of the definitions that have a body. -/
def bodyKeys (written : Table String Written.Schema) : List String :=
  Table.keys (written.filter fun entry => entry.2.reference.isNone)

/-- The node of each definition: bodies are numbered in order, and an alias has the node of the
body it leads to. -/
def definitions (written : Table String Written.Schema) :
    Except Failure (Table String NodeId) :=
  let bodies := bodyKeys written
  written.mapM fun (key, _) => do
    let target ← follow written key (written.length + 1) key
    return (key, ⟨bodies.idxOf target⟩)

/-- A graph with one empty node for each definition that has a body. -/
def reserved (written : Table String Written.Schema) : Graph :=
  ⟨((bodyKeys written).map fun _ => default).toArray⟩

/-- Fill in the nodes of the definitions that have a body. -/
def fillBodies (setting : Setting) (written : Table String Written.Schema) : LowerM Unit :=
  written.forM fun (key, schema) =>
    match schema.reference, setting.definitions.get? key with
    | none, some id => do
      let node ← body setting [.key "schemas", .key key] schema
      modify (·.fill id node)
    | _, _ => pure ()

def routers (setting : Setting) (written : Table String Written.Router) :
    LowerM (Table String (Table String Route.Procedure)) :=
  written.mapM fun (name, router) => do
    let procedures ← router.procedures.mapM fun (path, written) => do
      let found ← procedure setting
        [.key "routers", .key name, .key "procedures", .key path] written
      return (path, found)
    return (name, procedures)

/-- A document, lowered; `origin` is its name in messages. -/
def document (origin : String) (written : Written.Document) : Except Failure Document := do
  let definitions ← definitions written.schemas
  let setting : Setting := { origin, definitions }
  let lowered : LowerM (Table String (Table String Route.Procedure)) := do
    fillBodies setting written.schemas
    routers setting written.routers
  let (routers, graph) ← lowered.run (reserved written.schemas)
  return { graph, definitions, routers }

end Lowering

namespace Document

open Json (Decoded Value)

def ofDecoded (origin : String) : Decoded Written.Document → Except Failure Document
  | .ok written => Lowering.document origin written
  | .error mistake => .error (.parse origin mistake)

/-- The document that a text describes; `origin` is its name in messages. -/
def ofText (text origin : String) : Except Failure Document :=
  ofDecoded origin (Json.Decode.ofText Written.Document.decode text)

def ofValue (value : Value) : Except Failure Document :=
  ofDecoded "<value>" (Json.Decode.ofValue Written.Document.decode value)

def router (document : Document) (name : String) :
    Except Failure (Table String Route.Procedure) :=
  match document.routers.get? name with
  | some procedures => .ok procedures
  | none => .error (.unknownRouter name document.routers.keys)

end Document

end RouterClient
