import RouterClient.Schema.Graph

/-! # Procedures

What a router offers under a path: a call with at most one input and one output.
-/

namespace RouterClient.Route

open Schema (NodeId)

/-- How a procedure is called. -/
inductive CallKind where
  | query
  | mutation
  | subscription
  deriving DecidableEq, Repr, Inhabited

/-- What a procedure's author says about it. -/
structure Remark where
  /-- Whether the client has the procedure; the settings decide where nothing is said. -/
  wanted : Option Bool := none
  description : Option String := none
  deriving DecidableEq, Repr, Inhabited

/-- A procedure with the schemas of its inputs and its output. -/
structure Procedure where
  kind : CallKind
  inputs : List NodeId := []
  output : Option NodeId := none
  remark : Remark := {}
  deriving DecidableEq, Repr, Inhabited

end RouterClient.Route
