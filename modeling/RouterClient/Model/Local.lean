import RouterClient.Failure
import RouterClient.Schema.Graph

/-! # Local models

A model that is not declared for the whole file is nested in the declaration that mentions it.
One declaration holds one model for a node and one model under a name.
-/

namespace RouterClient.Model

open Schema (NodeId)

universe u v

/-- A model to be nested in whatever mentions it; `δ` is what defines a model. -/
structure LocalModel (δ : Type u) where
  owner : NodeId
  name : String
  definition : δ
  deriving Inhabited

/-- The models nested in one declaration, in order. -/
abbrev LocalModels (δ : Type u) := List (LocalModel δ)

namespace LocalModels

variable {δ : Type u}

def hasOwner (models : LocalModels δ) (id : NodeId) : Bool :=
  models.any (·.owner == id)

def hasName (models : LocalModels δ) (name : String) : Bool :=
  models.any (·.name == name)

/-- Nest a model unless its node has one here already. Another node's model under the same name
is a failure. -/
def absorb (models : LocalModels δ) (model : LocalModel δ) : Except Failure (LocalModels δ) :=
  if models.hasOwner model.owner then .ok models
  else if models.hasName model.name then .error (.nameCollision model.name)
  else .ok (models ++ [model])

/-- Nest a model where there is one. -/
def absorb? (models : LocalModels δ) : Option (LocalModel δ) → Except Failure (LocalModels δ)
  | none => .ok models
  | some model => models.absorb model

/-- The texts of the models with a line feed between any two. -/
def render (models : LocalModels δ) (text : δ → String) : String :=
  "\n".intercalate (models.map fun model => text model.definition)

/-- A model is nested when neither its node nor its name has a model here. -/
theorem absorb_ok {models grown : LocalModels δ} {model : LocalModel δ}
    (absorbed : models.absorb model = .ok grown) :
    (grown = models ∧ ∃ other ∈ models, other.owner = model.owner) ∨
    grown = models ++ [model] ∧ (∀ other ∈ models, other.owner ≠ model.owner) ∧
      ∀ other ∈ models, other.name ≠ model.name := by
  unfold absorb at absorbed
  split at absorbed
  · next owned =>
    cases absorbed
    exact .inl ⟨rfl, by simpa [hasOwner] using owned⟩
  · next free =>
    split at absorbed
    · cases absorbed
    · next unnamed =>
      cases absorbed
      exact .inr ⟨rfl, by simpa [hasOwner] using free, by simpa [hasName] using unnamed⟩

theorem mem_of_absorb? {models grown : LocalModels δ} {model? : Option (LocalModel δ)}
    (absorbed : models.absorb? model? = .ok grown) {other : LocalModel δ}
    (nested : other ∈ grown) : other ∈ models ∨ model? = some other := by
  cases model? with
  | none =>
    cases absorbed
    exact .inl nested
  | some model =>
    rcases absorb_ok absorbed with ⟨rfl, _⟩ | ⟨rfl, _⟩
    · exact .inl nested
    · rcases List.mem_append.mp nested with nested | nested
      · exact .inl nested
      · exact .inr (congrArg some (List.mem_singleton.mp nested).symm)

/-- Only a name that is taken keeps a model out. -/
theorem absorb?_error {models : LocalModels δ} {model? : Option (LocalModel δ)} {failure : Failure}
    (refused : models.absorb? model? = .error failure) : ∃ name, failure = .nameCollision name := by
  cases model? with
  | none => cases refused
  | some model =>
    simp only [absorb?, absorb] at refused
    split at refused
    · cases refused
    · split at refused
      · cases refused
        exact ⟨model.name, rfl⟩
      · cases refused

end LocalModels

end RouterClient.Model
