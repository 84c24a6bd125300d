import RouterClient.Model.Global
import RouterClient.Model.Scope
import RouterClient.Code.Declaration

/-! # The state of typing

Typing turns schema nodes into Swift types and declares models on the way. What a run has named,
declared and left out is kept, also when a step fails: a failing part is dropped, and the run goes
on with the names that the part has brought up.
-/

namespace RouterClient.Typing

open Model (GlobalModels LocalModel Scope)
open Schema (NodeId)
open Code (Declaration TypeExpr)

/-- What a run has brought up so far. -/
structure State where
  globals : GlobalModels Declaration := {}
  diagnostics : List Diagnostic := []
  /-- The nodes that may be mentioned by name where typing stands. -/
  scope : Scope := {}
  /-- How many typing steps stand one inside the other. -/
  callDepth : Nat := 0

/-- A step of a run. A step that fails keeps the state it has reached. -/
abbrev TypingM := EStateM Failure State

/-- The type of a node, and the model that the declaration which mentions the type has to hold. -/
structure Typed where
  type : TypeExpr
  model : Option (LocalModel Declaration) := none

/-- What typing a node comes to: its type, unless the node stands for no value at all, and the
scope after it. -/
structure Outcome where
  typed : Option Typed
  scope : Scope

/-- Where a type is wanted, apart from what is visible there. -/
structure Site where
  /-- How many declarations of models enclose the site. -/
  depth : Nat := 0
  /-- Whether the question mark of an optional type is written around the site. -/
  marked : Bool := false
  /-- The name of a model that nobody has named. -/
  fallback : String
  /-- The nearest wrapper or collection around the site that gives a model its name or makes it
  global. -/
  declared : Option NodeId := none

/-- A site and what is visible there. -/
structure Position extends Site where
  scope : Scope

/-- The site of a member of a declaration. -/
def Site.member (depth : Nat) (marked : Bool) (fallback : String) : Site :=
  { depth := depth + 1, marked, fallback }

/-- The same site, seen through a wrapper or a collection. -/
def Site.descend (site : Site) (marked : Bool) (declared : Option NodeId) : Site :=
  { site with marked, declared }

/-- Record what has been left out of the client, and why. -/
def report (location : String) (failure : Failure) : TypingM Unit :=
  modify fun state => { state with diagnostics := state.diagnostics ++ [⟨location, failure⟩] }

/-- Run a step, and take its failure as a result. -/
def attempt {α : Type} (step : TypingM α) : TypingM (Except Failure α) := fun state =>
  match step state with
  | .ok result state => .ok (.ok result) state
  | .error failure state => .ok (.error failure) state

/-- Run a step on a scope of its own, and go back to the scope before it. -/
def onCopy {α : Type} (scope : Scope) (step : TypingM α) : TypingM α := fun state =>
  match step { state with scope } with
  | .ok result next => .ok result { next with scope := state.scope }
  | .error failure next => .error failure { next with scope := state.scope }

/-- Run a step inside the steps that are under way. -/
def deeper {α : Type} (step : TypingM α) : TypingM α := fun state =>
  match step { state with callDepth := state.callDepth + 1 } with
  | .ok result next => .ok result { next with callDepth := next.callDepth - 1 }
  | .error failure next => .error failure { next with callDepth := next.callDepth - 1 }

def modifyScope (change : Scope → Scope) : TypingM Unit :=
  modify fun state => { state with scope := change state.scope }

/-- The name of a node, which is `proposal` if the node has none so far. -/
def resolveName (id : NodeId) (proposal : String) : TypingM String :=
  modifyGet fun state =>
    let (name, globals) := state.globals.resolveName id proposal
    (name, { state with globals })

def modifyGlobals (change : GlobalModels Declaration → GlobalModels Declaration) : TypingM Unit :=
  modify fun state => { state with globals := change state.globals }

/-- Declare a node's model for the whole file. -/
def register (id : NodeId) (name : String) (definition : Declaration) : TypingM Unit := do
  let (result, globals) := (← get).globals.register id name definition
  modifyGlobals fun _ => globals
  match result with
  | .ok () => pure ()
  | .error failure => throw failure

end RouterClient.Typing
