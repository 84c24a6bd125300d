import RouterClient.Proofs.Typing.Passages

/-! # Walks and transforms

A walk goes from a node to the one that it gives, until a node gives none.  It never comes back to a node,
so the size of the graph bounds it.  One that goes through transforms ends at the node that decides whether
a value may be absent, and whether it can be only one string.
-/

namespace RouterClient.Schema

/-- The nodes passed on the way from a node down to one that gives no next one. -/
inductive Walk (next : NodeId → Option NodeId) : NodeId → List NodeId → NodeId → Prop where
  | stop {id : NodeId} : next id = none → Walk next id [] id
  | step {id inner b : NodeId} {path : List NodeId} :
      next id = some inner → Walk next inner path b → Walk next id (id :: path) b

namespace Walk

variable {next : NodeId → Option NodeId} {id inner b c : NodeId} {path other : List NodeId}

theorem of_stop (walk : Walk next id path b) (last : next id = none) : path = [] ∧ b = id := by
  cases walk with
  | stop => exact ⟨rfl, rfl⟩
  | step onward _ => cases last.symm.trans onward

theorem of_step (walk : Walk next id path b) (onward : next id = some inner) :
    ∃ rest, path = id :: rest ∧ Walk next inner rest b := by
  cases walk with
  | stop last => cases last.symm.trans onward
  | step onward' rest =>
      obtain rfl := Option.some.inj (onward'.symm.trans onward)
      exact ⟨_, rfl, rest⟩

theorem ends (walk : Walk next id path b) : next b = none := by
  induction walk with
  | stop last => exact last
  | step _ _ ih => exact ih

theorem unique (walk : Walk next id path b) (again : Walk next id other c) :
    path = other ∧ b = c := by
  induction walk generalizing other with
  | stop last =>
      obtain ⟨rfl, rfl⟩ := again.of_stop last
      exact ⟨rfl, rfl⟩
  | step onward _ ih =>
      obtain ⟨rest, rfl, more⟩ := again.of_step onward
      obtain ⟨rfl, rfl⟩ := ih more
      exact ⟨rfl, rfl⟩

theorem of_mem (walk : Walk next id path b) (passed : inner ∈ path) :
    ∃ rest, rest <:+ path ∧ Walk next inner rest b := by
  induction walk with
  | stop => cases passed
  | @step id _ _ path onward walk ih =>
      rcases List.mem_cons.mp passed with rfl | passed
      · exact ⟨_, List.suffix_rfl, .step onward walk⟩
      · obtain ⟨rest, suffix, found⟩ := ih passed
        exact ⟨rest, suffix.trans (List.suffix_cons _ _), found⟩

/-- A walk that ends passes no node twice. -/
theorem nodup (walk : Walk next id path b) : path.Nodup := by
  induction walk with
  | stop => exact List.nodup_nil
  | @step id inner b path onward walk ih =>
      refine List.nodup_cons.mpr ⟨fun again => ?_, ih⟩
      obtain ⟨rest, suffix, found⟩ := walk.of_mem again
      have longer := congrArg List.length (found.unique (.step onward walk)).1
      have shorter := suffix.length_le
      simp only [List.length_cons] at longer
      omega

variable {graph : Graph}

theorem passage (leads : ∀ id inner, next id = some inner → graph.Leads id inner)
    (walk : Walk next id path b) : graph.Passage id path := by
  induction walk with
  | stop => exact .stop _
  | step onward _ ih => exact .step (leads _ _ onward) ih

theorem length_le (leads : ∀ id inner, next id = some inner → graph.Leads id inner)
    (walk : Walk next id path b) : path.length ≤ graph.size :=
  (walk.passage leads).length_le_size_of_nodup walk.nodup

end Walk

/-- The node in a transform. -/
def Kind.transformed? : Kind → Option NodeId
  | transform inner => some inner
  | _ => none

/-- Transforms lead from a node to one that is none. -/
def Graph.TransformsTo (graph : Graph) (id b : NodeId) : Prop :=
  ∃ path, Walk (fun id => (graph.kind id).transformed?) id path b

variable {graph : Graph} {id inner b : NodeId}

theorem Graph.TransformsTo.eq_of_bare (leads : graph.TransformsTo id b)
    (bare : (graph.kind id).transformed? = none) : b = id := by
  obtain ⟨_, walk⟩ := leads
  exact (walk.of_stop bare).2

theorem Graph.TransformsTo.of_transform (leads : graph.TransformsTo id b)
    (onward : (graph.kind id).transformed? = some inner) : graph.TransformsTo inner b := by
  obtain ⟨_, walk⟩ := leads
  obtain ⟨rest, _, walk⟩ := walk.of_step onward
  exact ⟨rest, walk⟩

theorem Graph.leads_of_transformed? (id inner : NodeId)
    (onward : (graph.kind id).transformed? = some inner) : graph.Leads id inner := by
  unfold Graph.Leads
  cases kind : graph.kind id <;> simp_all [Kind.transformed?, Kind.isPassage, Kind.children]

end RouterClient.Schema

namespace RouterClient.Typing

open Schema (Graph NodeId Kind Walk)

variable {graph : Graph} {id b : NodeId} {path : List NodeId} {steps : Nat}

theorem underTransforms_bare (bare : (graph.kind id).transformed? = none) :
    underTransforms graph steps id = graph.kind id := by
  cases steps with
  | zero => rfl
  | succ steps => cases kind : graph.kind id <;> simp_all [underTransforms, Kind.transformed?]

theorem underTransforms_transform {inner : NodeId}
    (onward : (graph.kind id).transformed? = some inner) :
    underTransforms graph (steps + 1) id = underTransforms graph steps inner := by
  cases kind : graph.kind id <;> simp_all [underTransforms, Kind.transformed?]

theorem underTransforms_of_walk (walk : Walk (fun id => (graph.kind id).transformed?) id path b)
    (within : path.length ≤ steps) : underTransforms graph steps id = graph.kind b := by
  induction walk generalizing steps with
  | stop bare => exact underTransforms_bare bare
  | step onward _ ih =>
      cases steps with
      | zero => simp at within
      | succ steps =>
          rw [underTransforms_transform onward]
          exact ih (by simpa using within)

/-- The size of the graph is enough to see through all transforms. -/
theorem underTransforms_eq (leads : graph.TransformsTo id b) :
    underTransforms graph graph.size id = graph.kind b := by
  obtain ⟨path, walk⟩ := leads
  exact underTransforms_of_walk walk (walk.length_le Graph.leads_of_transformed?)

theorem transformsTo_of_bare (steps : Nat)
    (bare : (underTransforms graph steps id).transformed? = none) :
    ∃ b, graph.TransformsTo id b ∧ graph.kind b = underTransforms graph steps id := by
  induction steps generalizing id with
  | zero => exact ⟨id, ⟨[], .stop bare⟩, rfl⟩
  | succ steps ih =>
      cases onward : (graph.kind id).transformed? with
      | none => exact ⟨id, ⟨[], .stop onward⟩, (underTransforms_bare onward).symm⟩
      | some inner =>
          rw [underTransforms_transform onward] at bare ⊢
          obtain ⟨b, ⟨path, walk⟩, same⟩ := ih bare
          exact ⟨b, ⟨id :: path, .step onward walk⟩, same⟩

/-- A kind that is none of a transform is found under the transforms just where they lead to it. -/
theorem underTransforms_eq_iff {kind : Kind} (bare : kind.transformed? = none) :
    underTransforms graph graph.size id = kind ↔
      ∃ b, graph.TransformsTo id b ∧ graph.kind b = kind := by
  constructor
  · rintro rfl
    exact transformsTo_of_bare graph.size bare
  · rintro ⟨b, leads, rfl⟩
    exact underTransforms_eq leads

theorem onlyString?_eq_some_iff {text : String} :
    onlyString? graph id = some text ↔
      ∃ b, graph.TransformsTo id b ∧ graph.kind b = .literal (.string text) := by
  rw [← underTransforms_eq_iff rfl]
  unfold onlyString?
  split <;> simp_all

end RouterClient.Typing
