import RouterClient.Schema.Graph

/-! # Wrappers

Optional, nullable and transform nodes wrap another node. A chain of wrappers that is longer than
the graph has come back to a node and never ends.
-/

namespace RouterClient.Typing

open Schema (NodeId Graph Kind Literal)

/-- The wrapper, when it gives a model its name or makes it global; otherwise what did so
before. -/
def declaredBy (graph : Graph) (wrapper : NodeId) (current : Option NodeId) : Option NodeId :=
  let label := graph.label wrapper
  if label.name.isSome || label.isGlobal then some wrapper else current

def wrapped? : Kind → Option NodeId
  | .optional inner | .nullable inner | .transform inner => some inner
  | _ => none

/-- What is left under a chain of at most `steps` wrappers, and the innermost of them that gives a
model its name or makes it global. -/
def unwrap? (graph : Graph) : (steps : Nat) → (id : NodeId) → (declared : Option NodeId) →
    Option (NodeId × Option NodeId)
  | 0, id, declared =>
    match wrapped? (graph.kind id) with
    | some _ => none
    | none => some (id, declared)
  | steps + 1, id, declared =>
    match wrapped? (graph.kind id) with
    | some inner => unwrap? graph steps inner (declaredBy graph id declared)
    | none => some (id, declared)

/-- What is left under a chain of at most `steps` transforms. -/
def underTransforms (graph : Graph) : (steps : Nat) → (id : NodeId) → Kind
  | 0, id => graph.kind id
  | steps + 1, id =>
    match graph.kind id with
    | .transform inner => underTransforms graph steps inner
    | kind => kind

/-- Whether a value of the node may be absent, transforms aside. -/
def admitsNull (graph : Graph) (id : NodeId) : Bool :=
  match underTransforms graph graph.size id with
  | .optional _ | .nullable _ | .empty => true
  | _ => false

/-- The only string that the node allows, transforms aside. -/
def onlyString? (graph : Graph) (id : NodeId) : Option String :=
  match underTransforms graph graph.size id with
  | .literal (.string text) => some text
  | _ => none

end RouterClient.Typing
