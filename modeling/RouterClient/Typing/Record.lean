import RouterClient.Typing.Enumeration
import RouterClient.Typing.Member
import RouterClient.Typing.Wrapper

/-! # Structs

An object is declared as a struct with a property for each field. A field whose name or model
clashes with that of a field before it does not go with it.
-/

namespace RouterClient.Typing

open Model (LocalModels Scope)
open Schema (NodeId Graph)
open Code (Declaration Heading Property TypeExpr memberName typeName)

/-- A struct as far as its fields have been typed. -/
structure RecordDraft where
  properties : List Property := []
  models : LocalModels Declaration := []

/-- The enum case that an initializer assigns by itself: that of the only string that a required
field allows. -/
def initialCase (graph : Graph) (settings : Settings) (field : NodeId) (type : TypeExpr) :
    Option String :=
  if !settings.assignsLiterals || type.isOptional then none
  else (onlyString? graph field).bind fun text => (caseLabels [text]).head?

def fieldProperty (graph : Graph) (settings : Settings) (field : String × NodeId)
    (type : TypeExpr) : Property where
  key := field.1
  name := memberName field.1
  type := type
  description := (graph.label field.2).description
  initial := initialCase graph settings field.2 type

/-- Add a field to a struct, unless its name or its model clashes. -/
def RecordDraft.addField (graph : Graph) (settings : Settings) (field : String × NodeId)
    (draft : RecordDraft) (typed : Typed) : Except Failure RecordDraft :=
  let property := fieldProperty graph settings field typed.type
  if draft.properties.any (·.name == property.name) then .error (.nameCollision property.name)
  else
    match draft.models.absorb? typed.model with
    | .error failure => .error failure
    | .ok models => .ok { properties := draft.properties ++ [property], models }

/-- A field of the object called `name`. -/
def fieldMember (graph : Graph) (settings : Settings) (name : String) (depth : Nat)
    (field : String × NodeId) : Member RecordDraft where
  id := field.2
  site := .member depth false (typeName field.1)
  location := name ++ "." ++ field.1
  announce := id
  add := RecordDraft.addField graph settings field

def RecordDraft.toDeclaration (draft : RecordDraft) (settings : Settings) (name : String)
    (description : Option String) : Declaration :=
  let heading :=
    { access := settings.access, name, conformance := settings.structClause, description }
  .record heading draft.properties draft.models

def declareRecord (graph : Graph) (settings : Settings) (typer : Typer) (name : String)
    (description : Option String) (fields : List (String × NodeId)) (scope : Scope)
    (depth : Nat) : TypingM Declaration := do
  let members := fields.map (fieldMember graph settings name depth)
  let draft ← typeMembers typer scope members {}
  return draft.toDeclaration settings name description

end RouterClient.Typing
