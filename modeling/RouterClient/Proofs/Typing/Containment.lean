import RouterClient.Proofs.Typing.Following
import RouterClient.Proofs.Typing.Passages

/-! # How far failures reach

A failure of a member is reported where the member stands and leaves the member out.  So a nominal
node fails only because its own global name is taken, and a failure that ends a run comes from the
wrappers and collections around a nominal node, or from what stands in its place.
-/

namespace RouterClient.Schema

/-- The node that a wrapper or a collection is typed around. -/
def Kind.inside? : Kind → Option NodeId
  | optional inner | nullable inner | transform inner | collection _ inner => some inner
  | _ => none

namespace Graph

variable {graph : Graph} {id inner b c : NodeId} {n m : Nat} {path : List NodeId}

/-- The wrappers and collections around a node: how many there are, and the first node inside that is
neither. -/
inductive Spine (graph : Graph) : NodeId → Nat → NodeId → Prop where
  | core {id : NodeId} : (graph.kind id).inside? = none → Spine graph id 0 id
  | around {id inner b : NodeId} {n : Nat} :
      (graph.kind id).inside? = some inner → Spine graph inner n b → Spine graph id (n + 1) b

theorem leads_iff : graph.Leads id inner ↔ (graph.kind id).inside? = some inner := by
  unfold Leads
  cases kind : graph.kind id <;>
    simp [Kind.isPassage, Kind.children, Kind.inside?, eq_comm]

theorem leads_of_collection {arrangement : Schema.Arrangement}
    (kind : graph.kind id = .collection arrangement inner) : graph.Leads id inner :=
  leads_iff.mpr (by rw [kind]; rfl)

theorem leads_of_transform (kind : graph.kind id = .transform inner) : graph.Leads id inner :=
  leads_iff.mpr (by rw [kind]; rfl)

namespace Spine

theorem of_inside (spine : graph.Spine id n b) (inside : (graph.kind id).inside? = some inner) :
    ∃ m, n = m + 1 ∧ graph.Spine inner m b := by
  cases spine with
  | core none => simp [none] at inside
  | around some spine =>
      obtain rfl := Option.some.inj (some.symm.trans inside)
      exact ⟨_, rfl, spine⟩

theorem unique (spine : graph.Spine id n b) (other : graph.Spine id m c) : n = m ∧ b = c := by
  induction spine generalizing m with
  | core none =>
      cases other with
      | core => exact ⟨rfl, rfl⟩
      | around inside => simp [none] at inside
  | around inside _ ih =>
      obtain ⟨k, rfl, inner⟩ := other.of_inside inside
      obtain ⟨rfl, rfl⟩ := ih inner
      exact ⟨rfl, rfl⟩

theorem of_reaches (spine : graph.Spine id n b) {later : NodeId}
    (reaches : Relation.ReflTransGen graph.Leads id later) :
    ∃ m ≤ n, graph.Spine later m b := by
  induction reaches with
  | refl => exact ⟨n, Nat.le_refl n, spine⟩
  | tail _ leads ih =>
      obtain ⟨m, fewer, rest⟩ := ih
      obtain ⟨k, rfl, inner⟩ := rest.of_inside (leads_iff.mp leads)
      exact ⟨k, by omega, inner⟩

/-- A spine that ends passes no node twice. -/
theorem passage_nodup (spine : graph.Spine id n b) (passage : graph.Passage id path) :
    path.Nodup := by
  induction passage generalizing n with
  | stop => exact List.nodup_nil
  | step leads passage ih =>
      obtain ⟨m, rfl, rest⟩ := spine.of_inside (leads_iff.mp leads)
      refine List.nodup_cons.mpr ⟨fun again => ?_, ih rest⟩
      obtain ⟨k, fewer, same⟩ := rest.of_reaches (passage.reaches again)
      obtain ⟨rfl, _⟩ := spine.unique same
      omega

end Spine

end Graph

end RouterClient.Schema

namespace RouterClient.Typing

open Schema (Graph NodeId Kind)

section

variable {graph : Graph} {id inner b base : NodeId} {n steps : Nat} {declared above : Option NodeId}

theorem inside?_of_wrapped? (wrapped : wrapped? (graph.kind id) = some inner) :
    (graph.kind id).inside? = some inner :=
  Schema.Graph.leads_iff.mp (leads_of_wrapped? wrapped)

/-- A chain of wrappers on a spine that ends does not go on for longer than the graph. -/
theorem unwrap?_of_spine (spine : graph.Spine id n b) (declared : Option NodeId) :
    unwrap? graph graph.size id declared ≠ none := by
  intro endless
  obtain ⟨path, passage, length⟩ := exists_passage_of_endless endless
  have bounded := passage.length_le_size_of_nodup (spine.passage_nodup passage)
  omega

/-- What is left under some wrappers stands further in on the spine. -/
theorem spine_of_unwrap? (spine : graph.Spine id n b)
    (unwrapped : unwrap? graph steps id declared = some (base, above)) :
    ∃ m ≤ n, graph.Spine base m b := by
  induction steps generalizing id n declared with
  | zero =>
      cases wrapped : wrapped? (graph.kind id) with
      | some inner => simp [unwrap?, wrapped] at unwrapped
      | none =>
          rw [unwrap?_bare wrapped] at unwrapped
          cases unwrapped
          exact ⟨n, Nat.le_refl n, spine⟩
  | succ steps ih =>
      cases wrapped : wrapped? (graph.kind id) with
      | some inner =>
          obtain ⟨m, rfl, rest⟩ := spine.of_inside (inside?_of_wrapped? wrapped)
          obtain ⟨k, fewer, found⟩ := ih rest (by simpa [unwrap?, wrapped] using unwrapped)
          exact ⟨k, by omega, found⟩
      | none =>
          rw [unwrap?_bare wrapped] at unwrapped
          cases unwrapped
          exact ⟨n, Nat.le_refl n, spine⟩

theorem spine_lt_of_unwrap? (spine : graph.Spine id n b)
    (wrapped : wrapped? (graph.kind id) = some inner)
    (unwrapped : unwrap? graph steps id declared = some (base, above)) :
    ∃ m < n, graph.Spine base m b := by
  obtain ⟨m, rfl, rest⟩ := spine.of_inside (inside?_of_wrapped? wrapped)
  cases steps with
  | zero => simp [unwrap?, wrapped] at unwrapped
  | succ steps =>
      obtain ⟨k, fewer, found⟩ := spine_of_unwrap? rest (by simpa [unwrap?, wrapped] using unwrapped)
      exact ⟨k, by omega, found⟩

end

section

variable {graph : Graph} {settings : Settings} {budget : Nat} {id b : NodeId} {site : Site}
  {state next : State} {events : List Event} {verdict : Verdict} {failure : Failure}

/-- What has been reported stays, and what typing reports comes after it. -/
theorem Derives.diagnostics_prefix
    (derived : Derives graph settings budget id site state events verdict next) :
    state.diagnostics <+: next.diagnostics := by
  refine Derives.induction (P := fun _ _ state _ _ next => state.diagnostics <+: next.diagnostics)
    List.prefix_rfl (fun grows => grows) ?_ derived
  intro budget _ _ _ _ _ _ below step
  have declared {id : NodeId} {name : String} {description : Option String} {scope : Model.Scope}
      {depth : Nat} {state next : State} {events : List Event}
      {definition : Option Code.Declaration}
      (declares : Declares graph settings (Derives graph settings budget) id name description scope
        depth state events definition next) : state.diagnostics <+: next.diagnostics := by
    refine declares.chain (R := fun state _ next => state.diagnostics <+: next.diagnostics)
      (fun _ => List.prefix_rfl) List.IsPrefix.trans ?_
    intro _ _ _ _ _ next location failure derived
    have grows := below derived
    cases failure with
    | none => exact grows
    | some failure => exact grows.trans (List.prefix_append _ _)
  cases step with
  | primitive _ | empty _ | unsupported _ | endless _ _ | promoted _ _ | visible _ _ _ =>
      exact List.prefix_rfl
  | optional _ _ inner => exact below inner
  | collection _ inner => exact below inner
  | transform _ inner => exact below inner
  | accepted _ _ _ declares _ | collided _ _ _ declares _ | void _ _ _ declares
  | nested _ _ _ declares | hollow _ _ _ declares =>
      have grows := declared declares
      exact grows

/-- A nominal node that is entered fails only because its own global name is taken. -/
theorem Derives.nominal_failure (nominal : (graph.kind id).isNominal = true)
    (room : state.callDepth < maxDepth) (reach : maxDepth ≤ budget + state.callDepth)
    (derived : Derives graph settings budget id site state events (.error failure) next) :
    failure = .nameCollision (state.nameFor id (proposedName graph id site)) ∧
      isGlobal settings (graph.label id) (site.declared.map graph.label) site.depth = true := by
  cases budget with
  | zero => omega
  | succ budget =>
      cases derived with
      | limit deep => omega
      | inside _ step =>
          generalize verdictOf : (Except.error failure : Verdict) = verdict at step
          cases step with
          | unsupported kind | collection kind | transform kind =>
              simp [kind, Kind.isNominal] at nominal
          | endless kind | optional kind =>
              rcases kind with kind | kind <;> simp [kind, Kind.isNominal] at nominal
          | collided _ global same _ registered =>
              cases verdictOf
              obtain ⟨rfl, _⟩ := Model.GlobalModels.register_error registered
              exact ⟨congrArg Failure.nameCollision same, global⟩
          | _ => cases verdictOf

/-- A node with a short spine that ends in something supported comes to no other failure than that a
name is taken, whatever lies below. -/
theorem Derives.failure_of_spine {n : Nat} (spine : graph.Spine id n b)
    (supported : ∀ typeName, graph.kind b ≠ .unsupported typeName)
    (room : state.callDepth + n < maxDepth) (reach : maxDepth ≤ budget + state.callDepth)
    (derived : Derives graph settings budget id site state events (.error failure) next) :
    ∃ name, failure = .nameCollision name := by
  induction budget generalizing id n site state events next failure with
  | zero => omega
  | succ budget ih =>
      by_cases nominal : (graph.kind id).isNominal = true
      · obtain ⟨same, _⟩ := Derives.nominal_failure nominal (by omega) reach derived
        exact ⟨_, same⟩
      cases derived with
      | limit deep => omega
      | inside _ step =>
          -- One step further in, one node less is left on the spine.
          have entered : state.enter.callDepth = state.callDepth + 1 := rfl
          generalize verdictOf : (Except.error failure : Verdict) = verdict at step
          cases step with
          | unsupported kind =>
              have core : graph.Spine id 0 id := .core (by simp [kind, Kind.inside?])
              obtain ⟨_, rfl⟩ := core.unique spine
              exact absurd kind (supported _)
          | endless kind endless => exact absurd endless (unwrap?_of_spine spine _)
          | optional kind chain inner =>
              rename_i verdict
              obtain ⟨_, wrapped⟩ : ∃ inner, wrapped? (graph.kind id) = some inner := by
                rcases kind with kind | kind <;> exact ⟨_, by rw [kind]; rfl⟩
              obtain ⟨m, fewer, rest⟩ := spine_lt_of_unwrap? spine wrapped chain
              cases verdict with
              | ok typed => cases verdictOf
              | error inside =>
                  cases verdictOf
                  exact ih rest (by omega) (by omega) inner
          | collection kind inner =>
              rename_i verdict
              obtain ⟨m, rfl, rest⟩ := spine.of_inside (by rw [kind]; rfl)
              cases verdict with
              | ok typed => cases verdictOf
              | error inside =>
                  cases verdictOf
                  exact ih rest (by omega) (by omega) inner
          | transform kind inner =>
              obtain ⟨m, rfl, rest⟩ := spine.of_inside (by rw [kind]; rfl)
              cases verdictOf
              exact ih rest (by omega) (by omega) inner
          | collided fresh => exact absurd fresh.nominal nominal
          | _ => cases verdictOf

theorem error_of_map {ε α β : Type} {verdict : Except ε α} {f : α → β} {failure : ε}
    (same : verdict.map f = .error failure) : verdict = .error failure := by
  cases verdict <;> cases same
  rfl

/-- Typing fails because the run has to end or because a name is taken. -/
theorem Derives.fatal_or_taken
    (derived : Derives graph settings budget id site state events (.error failure) next) :
    failure.isFatal = true ∨ ∃ name, failure = .nameCollision name := by
  refine Derives.induction (P := fun _ _ _ _ verdict _ => ∀ failure, verdict = .error failure →
    failure.isFatal = true ∨ ∃ name, failure = .nameCollision name) ?_ (fun known => known) ?_
    derived failure rfl
  · rintro _ _ _ _ ⟨⟩
    exact .inl rfl
  intro budget id site state events verdict next below step failure same
  cases step with
  | primitive _ | empty _ | promoted _ _ | visible _ _ _ | accepted _ _ _ _ _ | void _ _ _ _
  | nested _ _ _ _ | hollow _ _ _ _ => cases same
  | unsupported _ | endless _ _ =>
      cases same
      exact .inl rfl
  | optional _ _ inner => exact below inner failure (error_of_map same)
  | collection _ inner => exact below inner failure (error_of_map same)
  | transform _ inner => exact below inner failure same
  | collided _ _ _ _ registered =>
      cases same
      obtain ⟨rfl, _⟩ := Model.GlobalModels.register_error registered
      exact .inr ⟨_, rfl⟩

/-- Where the wrappers and collections around a node end in something that no type stands for, typing ends
the run: there, or on the way when too many steps stand around it. -/
theorem Derives.fatal_of_spine {n : Nat} {typeName : String} (spine : graph.Spine id n b)
    (unsupported : graph.kind b = .unsupported typeName)
    (derived : Derives graph settings budget id site state events verdict next) :
    ∃ failure, verdict = .error failure ∧ failure.isFatal = true := by
  induction budget generalizing id n site state events verdict next with
  | zero =>
      obtain ⟨_, rfl, _⟩ := derived
      exact ⟨_, rfl, rfl⟩
  | succ budget ih =>
      have inward {inner : NodeId} (inside : (graph.kind id).inside? = some inner) :
          ∃ m, graph.Spine inner m b := by
        obtain ⟨m, _, rest⟩ := spine.of_inside inside
        exact ⟨m, rest⟩
      have bare (none : (graph.kind id).inside? = none) : graph.kind id = .unsupported typeName := by
        obtain ⟨_, rfl⟩ := (Schema.Graph.Spine.core none).unique spine
        exact unsupported
      have never (nominal : (graph.kind id).isNominal = true) : False := by
        have kind := bare (by cases kind : graph.kind id <;> simp_all [Kind.isNominal, Kind.inside?])
        simp [kind, Kind.isNominal] at nominal
      cases derived with
      | limit _ => exact ⟨_, rfl, rfl⟩
      | inside _ step =>
          cases step with
          | unsupported _ | endless _ _ => exact ⟨_, rfl, rfl⟩
          | primitive kind | empty kind => simp [kind, Kind.inside?] at bare
          | optional _ chain inner =>
              obtain ⟨m, _, rest⟩ := spine_of_unwrap? spine chain
              obtain ⟨failure, rfl, fatal⟩ := ih rest inner
              exact ⟨failure, rfl, fatal⟩
          | collection kind inner =>
              obtain ⟨m, rest⟩ := inward (by rw [kind]; rfl)
              obtain ⟨failure, rfl, fatal⟩ := ih rest inner
              exact ⟨failure, rfl, fatal⟩
          | transform kind inner =>
              obtain ⟨m, rest⟩ := inward (by rw [kind]; rfl)
              exact ih rest inner
          | promoted nominal _ | visible nominal _ _ => exact (never nominal).elim
          | accepted fresh | collided fresh | void fresh | nested fresh | hollow fresh =>
              exact (never fresh.nominal).elim

end

end RouterClient.Typing
