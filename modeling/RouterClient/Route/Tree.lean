import RouterClient.Failure
import RouterClient.Route.Procedure
import RouterClient.Table
import RouterClient.Text.Lines

/-! # The tree of routes

A procedure's path is a list of segments with points between them. The procedures of a router
form a tree: all but the last segment of a path lead through namespaces, and the entries of each
namespace stand in the order in which paths first mention them.
-/

namespace RouterClient.Route

/-- What a segment leads to. -/
inductive Entry where
  | procedure (procedure : Procedure)
  | space (entries : List (String × Entry))
  deriving Inhabited

/-- The entries of one namespace, or of the root. -/
abbrev Tree := Table String Entry

def segments (path : String) : List String :=
  Text.split '.' path

namespace Tree

/-- Put a procedure at the end of some segments; none when a segment on the way, or the last one,
is taken by a procedure, or the last one by a namespace. -/
def insertAt? (procedure : Procedure) : (segments : List String) → Tree → Option Tree
  | [], _ => none
  | [last], tree =>
    if Table.contains last tree then none
    else some (Table.insert last (.procedure procedure) tree)
  | first :: second :: more, tree =>
    match Table.get? first tree with
    | none => do
      let below ← insertAt? procedure (second :: more) []
      return Table.insert first (.space below) tree
    | some (.space entries) => do
      let below ← insertAt? procedure (second :: more) entries
      return Table.insert first (.space below) tree
    | some (.procedure _) => none

def insertPath (tree : Tree) (path : String) (procedure : Procedure) : Except Failure Tree :=
  let steps := segments path
  if steps.contains "" then .error (.emptySegment path)
  else
    match insertAt? procedure steps tree with
    | some grown => .ok grown
    | none => .error (.pathConflict path)

/-- The tree of some procedures under their paths. The first path that does not fit to those
before it is an error. -/
def ofProcedures (procedures : Table String Procedure) : Except Failure Tree :=
  procedures.foldlM (fun tree (path, procedure) => tree.insertPath path procedure) []

/-- The procedures of a namespace with their names, those of namespaces below it left out. -/
def procedures (tree : Tree) : List (String × Procedure) :=
  tree.filterMap fun
    | (name, .procedure procedure) => some (name, procedure)
    | (_, .space _) => none

/-- The namespaces of a namespace with their names. -/
def spaces (tree : Tree) : List (String × Tree) :=
  tree.filterMap fun
    | (_, .procedure _) => none
    | (name, .space entries) => some (name, entries)

end Tree

end RouterClient.Route
