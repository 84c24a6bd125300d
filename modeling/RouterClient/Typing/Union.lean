import RouterClient.Typing.Record

/-! # Unions

A union is declared as a struct with one optional property for each of its alternatives. The
decoder attempts them in order and sets the property of the first that accepts; a null is accepted
before the first alternative that may be absent. The encoder writes the first property that is
set.
-/

namespace RouterClient.Typing

open Model (LocalModels Scope)
open Schema (NodeId Graph)
open Code (Alternative Attempt Declaration TypeExpr alternativeName?)

/-- A union as far as its options have been typed. -/
structure UnionDraft where
  alternatives : List Alternative := []
  attempts : List Attempt := []
  models : LocalModels Declaration := []

/-- Whether an alternative has a property. -/
def UnionDraft.takes (draft : UnionDraft) (property : String) : Bool :=
  draft.alternatives.any (·.property == property)

/-- A null is attempted here unless it has been attempted before. -/
def UnionDraft.attemptNull (draft : UnionDraft) : UnionDraft :=
  if draft.attempts.contains .null then draft
  else { draft with attempts := draft.attempts ++ [.null] }

/-- A name with underscores after it, as many of some tries as it takes to be free. -/
def underscored (takes : String → Bool) : (tries : Nat) → String → String
  | 0, name => name
  | tries + 1, name => if takes name then underscored takes tries (name ++ "_") else name

/-- The property for the option at a position, counted from one. It is called after the type that
it holds when that is a plain name that is free, and otherwise after the position. -/
def UnionDraft.propertyFor (draft : UnionDraft) (position : Nat) (payload : TypeExpr) : String :=
  let preferred := (alternativeName? payload.text).filter fun name => !draft.takes name
  underscored draft.takes draft.alternatives.length
    (preferred.getD ("option" ++ toString position))

/-- Add the option at a position to a union, unless its model clashes. -/
def UnionDraft.addOption (position : Nat) (draft : UnionDraft) (typed : Typed) :
    Except Failure UnionDraft :=
  match draft.models.absorb? typed.model with
  | .error failure => .error failure
  | .ok models =>
    let payload := typed.type.required
    let added : Alternative := { property := draft.propertyFor position payload, payload }
    .ok {
      alternatives := draft.alternatives ++ [added]
      attempts := draft.attempts ++ [.decode added]
      models }

/-- An option of the union called `name`, with the number of options before it. -/
def optionMember (graph : Graph) (name : String) (depth : Nat) (option : NodeId × Nat) :
    Member UnionDraft where
  id := option.1
  site := .member depth true ("Option" ++ toString (option.2 + 1))
  location := name ++ ".option" ++ toString (option.2 + 1)
  announce draft := if admitsNull graph option.1 then draft.attemptNull else draft
  add := UnionDraft.addOption (option.2 + 1)

/-- The struct of a finished draft; none when no alternative is left. -/
def UnionDraft.toDeclaration? (draft : UnionDraft) (settings : Settings) (name : String)
    (description : Option String) : Option Declaration :=
  if draft.alternatives.isEmpty then none
  else
    let heading :=
      { access := settings.access, name, conformance := settings.structClause, description }
    some (.choice heading draft.alternatives draft.attempts draft.models)

def declareUnion (graph : Graph) (settings : Settings) (typer : Typer) (name : String)
    (description : Option String) (options : List NodeId) (scope : Scope) (depth : Nat) :
    TypingM (Option Declaration) := do
  let members := options.zipIdx.map (optionMember graph name depth)
  let draft ← typeMembers typer scope members {}
  return draft.toDeclaration? settings name description

end RouterClient.Typing
