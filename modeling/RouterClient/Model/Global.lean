import RouterClient.Failure
import RouterClient.Schema.Graph
import RouterClient.Table

/-! # Global models

The state that a whole run shares: the name of every node that has been named, the models that
are declared for the whole file, and the nodes that may be mentioned by such a model's name. Two
nodes may share a global model when their definitions have the same text.
-/

namespace RouterClient.Model

open Schema (NodeId)

universe u

/-- A model that is declared for the whole file; `δ` is what defines a model. -/
structure GlobalModel (δ : Type u) where
  /-- The node that the model was first declared for. -/
  owner : NodeId
  definition : δ

/-- The names and the global models of a run. -/
structure GlobalModels (δ : Type u) where
  /-- The name of each node that has been named. -/
  names : Table NodeId String := []
  /-- The global models by name, in the order of their declaration. -/
  models : Table String (GlobalModel δ) := []
  /-- The nodes that may be mentioned by a global name. -/
  promoted : Table NodeId String := []
  deriving Inhabited

namespace GlobalModels

variable {δ : Type u}

def nameOf (globals : GlobalModels δ) (id : NodeId) : Option String :=
  globals.names.get? id

/-- The name of a node, which is `proposal` if the node has none so far. -/
def resolveName (globals : GlobalModels δ) (id : NodeId) (proposal : String) :
    String × GlobalModels δ :=
  match globals.nameOf id with
  | some name => (name, globals)
  | none => (proposal, { globals with names := globals.names.insert id proposal })

/-- The global name by which a node may be mentioned. -/
def globalName (globals : GlobalModels δ) (id : NodeId) : Option String :=
  globals.promoted.get? id

def containsName (globals : GlobalModels δ) (name : String) : Bool :=
  globals.models.contains name

/-- Let a node be mentioned by a global name before its model is declared, so that the model may
mention itself. -/
def reserve (globals : GlobalModels δ) (id : NodeId) (name : String) : GlobalModels δ :=
  { globals with promoted := globals.promoted.insert id name }

/-- Undo `reserve`. -/
def abandon (globals : GlobalModels δ) (id : NodeId) : GlobalModels δ :=
  { globals with promoted := globals.promoted.erase id }

/-- Declare a node's model under a name. A model that the name has already is kept, and it must be
for the same node or have the same text. A failure leaves the node unmentionable. -/
def register [BEq δ] (globals : GlobalModels δ) (id : NodeId) (name : String) (definition : δ) :
    Except Failure Unit × GlobalModels δ :=
  match globals.models.get? name with
  | some model =>
    if model.owner ≠ id ∧ (model.definition == definition) = false then
      (.error (.nameCollision name), globals.abandon id)
    else (.ok (), globals.reserve id name)
  | none =>
    let grown := { globals with models := globals.models.insert name ⟨id, definition⟩ }
    (.ok (), grown.reserve id name)

def definitions (globals : GlobalModels δ) : List δ :=
  globals.models.values.map (·.definition)

def size (globals : GlobalModels δ) : Nat :=
  globals.models.length

@[simp] theorem globalName_resolveName (globals : GlobalModels δ) (id other : NodeId)
    (proposal : String) :
    (globals.resolveName id proposal).2.globalName other = globals.globalName other := by
  unfold resolveName
  split <;> rfl

@[simp] theorem models_resolveName (globals : GlobalModels δ) (id : NodeId) (proposal : String) :
    (globals.resolveName id proposal).2.models = globals.models := by
  unfold resolveName
  split <;> rfl

theorem nameOf_resolveName (globals : GlobalModels δ) (id other : NodeId) (proposal : String) :
    (globals.resolveName id proposal).2.nameOf other =
      if id = other then some (globals.resolveName id proposal).1 else globals.nameOf other := by
  cases known : globals.nameOf id with
  | none =>
    simp only [resolveName, known]
    exact Table.get?_insert id other proposal globals.names
  | some name =>
    simp only [resolveName, known]
    by_cases same : id = other
    · rw [← same, known, if_pos rfl]
    · rw [if_neg same]

/-- A node that has a name keeps it. -/
theorem resolveName_of_nameOf {globals : GlobalModels δ} {id : NodeId} {name : String}
    (known : globals.nameOf id = some name) (proposal : String) :
    globals.resolveName id proposal = (name, globals) := by
  simp only [resolveName, known]

@[simp] theorem nameOf_reserve (globals : GlobalModels δ) (id other : NodeId) (name : String) :
    (globals.reserve id name).nameOf other = globals.nameOf other := rfl

@[simp] theorem models_reserve (globals : GlobalModels δ) (id : NodeId) (name : String) :
    (globals.reserve id name).models = globals.models := rfl

theorem globalName_reserve (globals : GlobalModels δ) (id other : NodeId) (name : String) :
    (globals.reserve id name).globalName other =
      if id = other then some name else globals.globalName other :=
  Table.get?_insert id other name globals.promoted

@[simp] theorem nameOf_abandon (globals : GlobalModels δ) (id other : NodeId) :
    (globals.abandon id).nameOf other = globals.nameOf other := rfl

@[simp] theorem models_abandon (globals : GlobalModels δ) (id : NodeId) :
    (globals.abandon id).models = globals.models := rfl

theorem globalName_abandon (globals : GlobalModels δ) (id other : NodeId) :
    (globals.abandon id).globalName other =
      if id = other then none else globals.globalName other :=
  Table.get?_erase id other globals.promoted

theorem globalName_abandon_self (globals : GlobalModels δ) (id : NodeId) :
    (globals.abandon id).globalName id = none :=
  (globalName_abandon globals id id).trans (if_pos rfl)

theorem globalName_abandon_of_ne (globals : GlobalModels δ) {id other : NodeId}
    (different : id ≠ other) :
    (globals.abandon id).globalName other = globals.globalName other :=
  (globalName_abandon globals id other).trans (if_neg different)

/-- What a declaration that is accepted does to the global models. -/
structure Accepts [BEq δ] (globals : GlobalModels δ) (id : NodeId) (name : String)
    (definition : δ) (grown : GlobalModels δ) : Prop where
  names : ∀ other, grown.nameOf other = globals.nameOf other
  promoted : ∀ other,
    grown.globalName other = if id = other then some name else globals.globalName other
  models : globals.models <+: grown.models
  distinct : globals.models.keys.Nodup → grown.models.keys.Nodup
  added : ∀ entry ∈ grown.models, entry ∈ globals.models ∨ entry = (name, ⟨id, definition⟩)
  found : ∃ model, grown.models.get? name = some model ∧
    (model.owner = id ∨ (model.definition == definition) = true)

namespace Accepts

variable [BEq δ] {globals grown : GlobalModels δ} {id other : NodeId} {name : String}
  {definition : δ}

theorem own (accepts : globals.Accepts id name definition grown) :
    grown.globalName id = some name :=
  (accepts.promoted id).trans (if_pos rfl)

theorem others (accepts : globals.Accepts id name definition grown) (different : id ≠ other) :
    grown.globalName other = globals.globalName other :=
  (accepts.promoted other).trans (if_neg different)

end Accepts

/-- A declaration is accepted when its name is free, or stands for the same node or text. -/
theorem accepts_of_register [BEq δ] {globals grown : GlobalModels δ} {id : NodeId} {name : String}
    {definition : δ} (accepted : globals.register id name definition = (.ok (), grown)) :
    globals.Accepts id name definition grown := by
  unfold register at accepted
  split at accepted
  · next model found =>
    split at accepted
    · simp at accepted
    · next same =>
      obtain rfl := (Prod.mk.inj accepted).2
      have own : model.owner = id ∨ (model.definition == definition) = true := by
        by_cases owned : model.owner = id
        · exact .inl owned
        · exact .inr (by simpa [owned] using same)
      exact {
        names _ := rfl
        promoted other := globalName_reserve globals id other name
        models := List.prefix_rfl
        distinct nodup := nodup
        added _ member := .inl member
        found := ⟨model, found, own⟩ }
  · next free =>
    obtain rfl := (Prod.mk.inj accepted).2
    have extended := Table.insert_of_absent name (GlobalModel.mk id definition) _ free
    exact {
      names _ := rfl
      promoted other := globalName_reserve _ id other name
      models := by
        rw [models_reserve, extended]
        exact List.prefix_append _ _
      distinct nodup := Table.nodup_keys_insert name _ nodup
      added entry member := by
        rw [models_reserve, extended] at member
        simpa using member
      found := by
        refine ⟨⟨id, definition⟩, ?_, .inl rfl⟩
        rw [models_reserve, Table.get?_insert, if_pos rfl] }

/-- A refused declaration leaves nothing behind. -/
theorem register_error [BEq δ] {globals grown : GlobalModels δ} {id : NodeId} {name : String}
    {definition : δ} {failure : Failure}
    (refused : globals.register id name definition = (.error failure, grown)) :
    failure = .nameCollision name ∧ grown = globals.abandon id := by
  unfold register at refused
  split at refused
  · split at refused
    · have same := Prod.mk.inj refused
      exact ⟨(Except.error.inj same.1).symm, same.2.symm⟩
    · simp at refused
  · simp at refused

end GlobalModels

end RouterClient.Model
