import RouterClient.Typing.State

/-! # Members of a declaration

The fields of an object and the options of a union are typed one after the other, each on a copy
of the scope. A member that stands for no value is left out; one whose type cannot be had, or that
does not go with the members before it, is left out and reported.
-/

namespace RouterClient.Typing

open Model (Scope)
open Schema (NodeId)

/-- How the node at a site is typed. -/
abbrev Typer := NodeId → Site → TypingM (Option Typed)

/-- A member of a declaration; `δ` is what the declaration has of its members, its draft. -/
structure Member (δ : Type) where
  id : NodeId
  site : Site
  location : String
  /-- What the member does to the draft, whatever its typing comes to. -/
  announce : δ → δ
  add : δ → Typed → Except Failure δ

/-- The draft after a member, and what keeps the member out of it. -/
def Member.settle {δ : Type} (member : Member δ) (draft : δ) :
    Except Failure (Option Typed) → δ × Option Failure
  | .error failure => (member.announce draft, some failure)
  | .ok none => (member.announce draft, none)
  | .ok (some typed) =>
    match member.add (member.announce draft) typed with
    | .error failure => (member.announce draft, some failure)
    | .ok grown => (grown, none)

/-- Type one member and settle it in the draft. -/
def typeMember {δ : Type} (typer : Typer) (scope : Scope) (draft : δ) (member : Member δ) :
    TypingM δ := do
  let verdict ← attempt (onCopy scope (typer member.id member.site))
  let (settled, kept) := member.settle draft verdict
  match kept with
  | some failure =>
    report member.location failure
    return settled
  | none => return settled

/-- Type the members of a declaration in order. -/
def typeMembers {δ : Type} (typer : Typer) (scope : Scope) (members : List (Member δ))
    (draft : δ) : TypingM δ :=
  members.foldlM (typeMember typer scope) draft

end RouterClient.Typing
