import RouterClient.Proofs.Code.Names
import RouterClient.Proofs.Typing.Drafts
import RouterClient.Proofs.Typing.Registry
import RouterClient.Proofs.Typing.Union

/-! # Names of properties

A field joins a struct only when no property before it has its name, and an alternative of a union gets
a name that no alternative before it has.  So the properties of a declaration have distinct names when it
is made.  What holds of declarations when they are made holds of all that is registered, and of everything
nested in it.
-/

namespace RouterClient.Typing

open Model (GlobalModels LocalModel LocalModels)
open Schema (NodeId Graph)
open Code (Alternative Declaration Property)

/-- The properties of a struct under way have distinct names. -/
def RecordDraft.Distinct (draft : RecordDraft) : Prop :=
  (draft.properties.map Property.name).Nodup

/-- The properties of a union under way have distinct names. -/
def UnionDraft.Distinct (draft : UnionDraft) : Prop :=
  (draft.alternatives.map Alternative.property).Nodup

section

variable {graph : Graph} {settings : Settings} {J : Judgement} {scope : Model.Scope}
  {state next : State} {events : List Event} {id : NodeId} {name : String}
  {description : Option String} {depth : Nat}

theorem fieldMember_distinct (field : String × NodeId) (draft : RecordDraft) (verdict : Verdict)
    (distinct : draft.Distinct) :
    ((fieldMember graph settings name depth field).settle draft verdict).1.Distinct := by
  refine fieldMember_preserves (T := fun _ => True) ?_ (fun _ _ => trivial) distinct
  intro draft typed models kept _ free _
  rw [RecordDraft.Distinct, List.map_append, List.map_singleton, ← List.concat_eq_append,
    List.nodup_concat]
  exact ⟨free, kept⟩

theorem optionMember_distinct (option : NodeId × Nat) (draft : UnionDraft) (verdict : Verdict)
    (distinct : draft.Distinct) :
    ((optionMember graph name depth option).settle draft verdict).1.Distinct := by
  refine optionMember_preserves (T := fun _ => True) ?_ ?_ (fun _ _ => trivial) distinct
  · intro draft kept
    rwa [UnionDraft.Distinct, UnionDraft.attemptNull_alternatives]
  · intro draft typed models kept _ _
    rw [UnionDraft.Distinct, List.map_append, List.map_singleton, ← List.concat_eq_append,
      List.nodup_concat]
    exact ⟨draft.propertyFor_not_mem _ _, kept⟩

/-- The properties of a declaration have distinct names when it is made, whatever its members are. -/
theorem Declares.propertyNames_nodup {definition : Option Declaration}
    (declares : Declares graph settings J id name description scope depth state events definition
      next) :
    ∀ declaration, definition = some declaration → declaration.propertyNames.Nodup := by
  rintro declaration rfl
  have drafted := declares.drafted (I := RecordDraft.Distinct) (K := UnionDraft.Distinct)
    (V := fun _ => True) (fun _ => trivial)
    (fun field draft verdict _ => fieldMember_distinct field draft verdict)
    (fun option draft verdict _ => optionMember_distinct option draft verdict)
    List.nodup_nil List.nodup_nil
  cases drafted with
  | record distinct | union distinct => exact distinct
  | enumeration => exact List.nodup_nil

end

/-! ## Everything that is made -/

/-- What holds of a declaration and of everything nested in it. -/
def Throughout (P : Declaration → Prop) (declaration : Declaration) : Prop :=
  ∀ inner ∈ declaration.everything, P inner

/-- What typing makes, or adds to the global models, is of some kind throughout. -/
structure Makes (P : Declaration → Prop) (before : GlobalModels Declaration) (verdict : Verdict)
    (after : GlobalModels Declaration) : Prop where
  nested : ∀ typed model, verdict = .ok (some typed) → typed.model = some model →
    Throughout P model.definition
  models : ∀ entry ∈ after.models, entry ∈ before.models ∨ Throughout P entry.2.definition

section

variable {P : Declaration → Prop} {graph : Graph} {settings : Settings} {budget : Nat} {id : NodeId}
  {site : Site} {state next : State} {before middle after : GlobalModels Declaration}
  {events : List Event} {verdict : Verdict}

theorem Makes.map {f : Typed → Typed} (keeps : ∀ typed, (f typed).model = typed.model)
    (makes : Makes P before verdict after) : Makes P before (verdict.map (Option.map f)) after where
  nested typed model outcome found := by
    rcases verdict with failure | ⟨_ | inner⟩
    · cases outcome
    · cases outcome
    · cases outcome
      exact makes.nested inner model rfl ((keeps inner).symm.trans found)
  models := makes.models

theorem Declares.makes {name : String} {description : Option String} {scope : Model.Scope}
    {depth : Nat} {definition : Option Declaration}
    (members : ∀ {below site state events verdict next},
      Derives graph settings budget below site state events verdict next →
      Makes P state.globals verdict next.globals)
    (declares : Declares graph settings (Derives graph settings budget) id name description scope
      depth state events definition next)
    (made : ∀ declaration, definition = some declaration → P declaration) :
    (∀ declaration, definition = some declaration → Throughout P declaration) ∧
      ∀ entry ∈ next.globals.models,
        entry ∈ state.globals.models ∨ Throughout P entry.2.definition := by
  have invariant := declares.body_invariant
    (I := fun body _ last => (∀ model ∈ body.models, Throughout P model.definition) ∧
      ∀ entry ∈ last.globals.models,
        entry ∈ state.globals.models ∨ Throughout P entry.2.definition)
    ⟨nofun, fun _ => .inl⟩ ?_
  · obtain ⟨body, ⟨nested, models⟩, declared⟩ := invariant
    refine ⟨fun declaration same => Declaration.forall_everything.mpr ⟨made _ same, ?_⟩, models⟩
    intro model listed
    rw [← (declared declaration same).1] at nested
    exact nested model listed
  · intro before after log below site middle events verdict next location failure derived grows held
    obtain ⟨nested, models⟩ := held
    have makes := members derived
    refine ⟨?_, fun entry listed => ?_⟩
    · cases grows with
      | same => exact nested
      | more outcome _ absorbed =>
          intro model listed
          rcases LocalModels.mem_of_absorb? absorbed listed with listed | found
          · exact nested model listed
          · exact makes.nested _ model outcome found
    · rw [State.note_globals] at listed
      exact (makes.models entry listed).elim (models entry) .inr

/-- What holds of every declaration when it is made holds of everything that typing makes. -/
theorem Derives.makes
    (made : ∀ {J id name description scope depth state events definition next},
      Declares graph settings J id name description scope depth state events definition next →
      ∀ declaration, definition = some declaration → P declaration)
    (derived : Derives graph settings budget id site state events verdict next) :
    Makes P state.globals verdict next.globals := by
  refine Derives.induction (P := fun _ _ state _ verdict next =>
    Makes P state.globals verdict next.globals) ⟨nofun, fun _ => .inl⟩ (fun makes => makes) ?_ derived
  intro budget id site state events verdict next below step
  have kept {state next : State} (same : next.globals.models = state.globals.models) :
      ∀ entry ∈ next.globals.models,
        entry ∈ state.globals.models ∨ Throughout P entry.2.definition :=
    fun _ listed => .inl (same ▸ listed)
  cases step with
  | primitive _ => exact ⟨by rintro _ _ ⟨⟩; nofun, fun _ => .inl⟩
  | empty _ | unsupported _ | endless _ _ => exact ⟨nofun, fun _ => .inl⟩
  | optional _ _ inner => exact (below inner).map (Typed.mark_model _)
  | collection _ inner => exact (below inner).map (Typed.collect_model _)
  | transform _ inner => exact below inner
  | promoted _ _ | visible _ _ _ =>
      exact ⟨by rintro _ _ ⟨⟩; nofun, kept (state.named_models _ _)⟩
  | accepted _ _ _ declares registered =>
      obtain ⟨definition, models⟩ := declares.makes below (made declares)
      refine ⟨by rintro _ _ ⟨⟩; nofun, fun entry listed => ?_⟩
      rcases (GlobalModels.accepts_of_register registered).added entry listed with listed | rfl
      · exact (models entry listed).imp_left fun held => by rwa [State.reserved_models] at held
      · exact .inr (definition _ rfl)
  | collided _ _ _ declares registered =>
      obtain ⟨_, rfl⟩ := GlobalModels.register_error registered
      refine ⟨nofun, fun entry listed => ?_⟩
      refine ((declares.makes below (made declares)).2 entry listed).imp_left fun held => ?_
      rwa [State.reserved_models] at held
  | void _ _ _ declares =>
      refine ⟨nofun, fun entry listed => ?_⟩
      refine ((declares.makes below (made declares)).2 entry listed).imp_left fun held => ?_
      rwa [State.reserved_models] at held
  | nested _ _ _ declares =>
      obtain ⟨definition, models⟩ := declares.makes below (made declares)
      refine ⟨?_, fun entry listed => ?_⟩
      · rintro _ _ ⟨⟩ ⟨⟩
        exact definition _ rfl
      · exact (models entry listed).imp_left fun held => by rwa [State.shown_models] at held
  | hollow _ _ _ declares =>
      refine ⟨nofun, fun entry listed => ?_⟩
      refine ((declares.makes below (made declares)).2 entry listed).imp_left fun held => ?_
      rwa [State.shown_models] at held

end

end RouterClient.Typing
