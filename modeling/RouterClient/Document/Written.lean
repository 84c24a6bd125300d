import RouterClient.Json.Decode
import RouterClient.Route.Procedure

/-! # Router definition documents as they are written

A document holds schemas under keys and routers with their procedures. A schema is a reference to
a key, or a type name with the fields that the type needs; fields that it does not need may be
there too.
-/

namespace RouterClient.Written

/-- A schema as it is written. -/
structure Schema where
  /-- The key of the definition that the schema stands for. -/
  reference : Option String := none
  typeName : Option String := none
  name : Option String := none
  description : Option String := none
  isGlobal : Bool := false
  /-- Whether a number is an integer. -/
  isInteger : Bool := false
  inner : Option Schema := none
  element : Option Schema := none
  valueType : Option Schema := none
  shape : Option (List (String × Schema)) := none
  values : Option (List Json.Value) := none
  value : Option Json.Value := none
  options : Option (List Schema) := none
  deriving Inhabited

/-- A procedure as it is written. Its inputs may be written as one, as a list or both. -/
structure Procedure where
  kind : Route.CallKind := .query
  input : Option Schema := none
  inputs : List Schema := []
  output : Option Schema := none
  remark : Route.Remark := {}

structure Router where
  procedures : Table String Procedure := []

structure Document where
  schemas : Table String Schema := []
  routers : Table String Router := []

open Json Json.Decode

/-- The fields of a schema in order, with `decode` for the schemas inside it. -/
def Schema.fields (decode : Nat → Tree → Decoded Schema) : List (FieldRule Schema) :=
  let schema (levels : Nat) := option (decode levels)
  [ (FieldRule.of "$ref" (fun _ => option string) fun s reference => { s with reference }).kept,
    (FieldRule.of "type" (fun _ => option string) fun s typeName => { s with typeName }).kept,
    (FieldRule.of "name" (fun _ => option string) fun s name => { s with name }).kept,
    (FieldRule.of "description" (fun _ => option string)
      fun s description => { s with description }).kept,
    FieldRule.of "global" (fun _ => bool) fun s isGlobal => { s with isGlobal },
    FieldRule.of "int" (fun _ => bool) fun s isInteger => { s with isInteger },
    (FieldRule.of "inner" schema fun s inner => { s with inner }).kept,
    (FieldRule.of "element" schema fun s element => { s with element }).kept,
    (FieldRule.of "valueType" schema fun s valueType => { s with valueType }).kept,
    (FieldRule.of "shape" (fun levels => option (table levels decode))
      fun s shape => { s with shape }).kept,
    (FieldRule.of "values" (fun levels => option (list levels Decode.value))
      fun s values => { s with values }).kept,
    (FieldRule.of "value" (fun levels => option (Decode.value levels))
      fun s value => { s with value }).kept,
    (FieldRule.of "options" (fun levels => option (list levels decode))
      fun s options => { s with options }).kept ]

/-- Decode a schema. A schema inside another has fewer levels left, so a budget of as many schemas
as there are levels is enough. -/
def Schema.decode (form : Form) : (budget : Nat) → (levels : Nat) → Tree → Decoded Schema
  | 0, _, _ => faulty .tooDeep
  | budget + 1, levels, tree =>
    record "RawSchema" (fields (decode form budget)) {} form levels tree

/-- The fields of what an author says about a procedure, in order. -/
def remarkFields : List (FieldRule Route.Remark) :=
  [ .of "include" (fun _ => option bool) fun r wanted => { r with wanted },
    .of "description" (fun _ => option string) fun r description => { r with description } ]

/-- The ways to call a procedure with their names. -/
def callKinds : List (String × Route.CallKind) :=
  [("query", .query), ("mutation", .mutation), ("subscription", .subscription)]

/-- The fields of a procedure in order. -/
def Procedure.fields (form : Form) : List (FieldRule Procedure) :=
  let schema (levels : Nat) := Schema.decode form levels levels
  [ (FieldRule.of "kind" (choice callKinds form) fun p kind => { p with kind }).needed,
    .of "input" (fun levels => option (schema levels)) fun p input => { p with input },
    .of "inputs" (fun levels => list levels schema) fun p inputs => { p with inputs },
    .of "output" (fun levels => option (schema levels)) fun p output => { p with output },
    .of "meta" (record "ProcedureMeta" remarkFields {} form) fun p remark => { p with remark } ]

def Router.fields (form : Form) : List (FieldRule Router) :=
  [ .of "procedures"
      (table · (record "RawProcedure" (Procedure.fields form) {} form))
      fun r procedures => { r with procedures } ]

def Document.fields (form : Form) : List (FieldRule Document) :=
  [ .of "schemas" (table · fun levels => Schema.decode form levels levels)
      fun d schemas => { d with schemas },
    .of "routers" (table · (record "RawRouter" (Router.fields form) {} form))
      fun d routers => { d with routers } ]

def Document.decode (form : Form) (levels : Nat) (tree : Tree) : Decoded Document :=
  record "RawDocument" (Document.fields form) {} form levels tree

end RouterClient.Written
