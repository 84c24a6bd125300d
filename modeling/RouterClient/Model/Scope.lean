import RouterClient.Schema.Graph
import RouterClient.Table

/-! # Scopes

The nodes that can be mentioned by name at one place of the client: those whose declarations
enclose the place or stand beside it. Each member of a declaration works on a scope of its own, so
nothing declared for one member is visible to the next.
-/

namespace RouterClient.Model

open Schema (NodeId)

/-- The visible nodes with their names. -/
structure Scope where
  visible : Table NodeId String := []
  deriving DecidableEq, Repr, Inhabited

namespace Scope

/-- The name under which a node is visible. -/
def lookup (scope : Scope) (id : NodeId) : Option String :=
  scope.visible.get? id

def contains (scope : Scope) (id : NodeId) : Bool :=
  scope.visible.contains id

/-- Make a node visible under a name. -/
def insert (scope : Scope) (id : NodeId) (name : String) : Scope :=
  ⟨scope.visible.insert id name⟩

def remove (scope : Scope) (id : NodeId) : Scope :=
  ⟨scope.visible.erase id⟩

@[simp] theorem lookup_empty (id : NodeId) : lookup {} id = none := rfl

theorem lookup_insert (scope : Scope) (id other : NodeId) (name : String) :
    (scope.insert id name).lookup other = if id = other then some name else scope.lookup other :=
  Table.get?_insert id other name scope.visible

theorem lookup_remove (scope : Scope) (id other : NodeId) :
    (scope.remove id).lookup other = if id = other then none else scope.lookup other :=
  Table.get?_erase id other scope.visible

/-- Hiding a node that has just been made visible undoes that. -/
theorem remove_insert (scope : Scope) (id : NodeId) (name : String)
    (hidden : scope.lookup id = none) : (scope.insert id name).remove id = scope :=
  congrArg Scope.mk (Table.erase_insert id name scope.visible hidden)

theorem contains_eq (scope : Scope) (id : NodeId) :
    scope.contains id = (scope.lookup id).isSome := rfl

end Scope

end RouterClient.Model
