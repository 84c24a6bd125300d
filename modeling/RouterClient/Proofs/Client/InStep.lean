import RouterClient.Proofs.Client.Rules
import RouterClient.Proofs.Code.Address
import RouterClient.Proofs.Code.Bodies
import RouterClient.Proofs.Typing.ScopeEffect

/-! # Scope and models of a class

A class sees what was visible around it when it was begun, and the nodes of its own models.  Scope and
models take each step together or not at all, so a local type that a method mentions is declared in
the class of the method or in a class around it.
-/

namespace RouterClient.Client

open Model (LocalModel LocalModels Scope)
open Route (Entry Procedure)
open Schema (NodeId Graph)
open Code (Declaration Method RouteClass TypeExpr typeName)
open Typing

/-- What is visible in a class is what is visible around it and, under their names, the owners of the
class's models. -/
structure InStep (inherited scope : Scope) (models : LocalModels Declaration) : Prop where
  visible : ∀ id name, scope.lookup id = some name ↔
    inherited.lookup id = some name ∨ ∃ model ∈ models, model.owner = id ∧ model.name = name
  fresh : ∀ model ∈ models, inherited.lookup model.owner = none
  owners : (models.map LocalModel.owner).Nodup
  names : (models.map LocalModel.name).Nodup

namespace InStep

variable {inherited before middle after : Scope} {models grown : LocalModels Declaration}

theorem start (inherited : Scope) : InStep inherited inherited [] where
  visible := by simp
  fresh := nofun
  owners := List.nodup_nil
  names := List.nodup_nil

/-- A hidden node becomes visible with its model. -/
theorem concat (inStep : InStep inherited before models) {model : LocalModel Declaration}
    (hidden : before.lookup model.owner = none)
    (unnamed : ∀ other ∈ models, other.name ≠ model.name) :
    InStep inherited (before.insert model.owner model.name) (models ++ [model]) := by
  have unowned : ∀ other ∈ models, other.owner ≠ model.owner := by
    intro other nested same
    have seen := (inStep.visible other.owner other.name).mpr (.inr ⟨other, nested, rfl, rfl⟩)
    rw [same, hidden] at seen
    cases seen
  have above : inherited.lookup model.owner = none := by
    cases seen : inherited.lookup model.owner with
    | none => rfl
    | some name =>
        have kept := (inStep.visible model.owner name).mpr (.inl seen)
        exact absurd (kept.symm.trans hidden) nofun
  refine ⟨?_, ?_, ?_, ?_⟩
  · intro id name
    rw [Scope.lookup_insert]
    by_cases own : model.owner = id
    · subst own
      simp only [if_true, Option.some.injEq, above, reduceCtorEq, false_or, List.mem_append,
        List.mem_singleton]
      constructor
      · rintro rfl
        exact ⟨model, .inr rfl, rfl, rfl⟩
      · rintro ⟨other, nested | rfl, same, named⟩
        · exact absurd same (unowned other nested)
        · exact named
    · rw [if_neg own, inStep.visible]
      simp [own, or_and_right, exists_or]
  · intro other nested
    rcases List.mem_append.mp nested with nested | nested
    · exact inStep.fresh other nested
    · obtain rfl := List.mem_singleton.mp nested
      exact above
  · rw [List.map_append, List.map_singleton, ← List.concat_eq_append, List.nodup_concat]
    exact ⟨by simpa using unowned, inStep.owners⟩
  · rw [List.map_append, List.map_singleton, ← List.concat_eq_append, List.nodup_concat]
    exact ⟨by simpa using unnamed, inStep.names⟩

/-- A class that takes over the scope after a type also nests the type's model. -/
theorem absorb (inStep : InStep inherited before models) {typed : Option Typed}
    (effect : ScopeEffect before (.ok typed) after)
    (absorbed : models.absorb? (typed.bind Typed.model) = .ok grown) :
    InStep inherited after grown := by
  cases holds : typed.bind Typed.model with
  | none =>
      rw [holds] at absorbed
      cases absorbed
      have same : after = before := by
        cases typed with
        | none => exact effect
        | some typed =>
            simp only [Option.bind_some] at holds
            simpa only [ScopeEffect, holds] using effect
      exact same ▸ inStep
  | some model =>
      obtain ⟨typed, rfl, holds'⟩ := Option.bind_eq_some_iff.mp holds
      simp only [ScopeEffect, holds'] at effect
      obtain ⟨hidden, rfl⟩ := effect
      rw [holds] at absorbed
      rcases LocalModels.absorb_ok absorbed with ⟨_, other, nested, same⟩ | ⟨rfl, _, unnamed⟩
      · have seen := (inStep.visible other.owner other.name).mpr (.inr ⟨other, nested, rfl, rfl⟩)
        rw [same, hidden] at seen
        cases seen
      · exact inStep.concat hidden unnamed

/-- The types of a procedure join the class one after the other. -/
theorem nest (inStep : InStep inherited before models) {input output : Option Typed}
    {names : List String} (first : ScopeEffect before (.ok input) middle)
    (second : ScopeEffect middle (.ok output) after)
    (nested : nest models (input.toList ++ output.toList) = .ok (grown, names)) :
    InStep inherited after grown := by
  obtain ⟨between, absorbed, absorbed'⟩ := nest_pair nested
  exact (inStep.absorb first absorbed).absorb second absorbed'

end InStep

section

variable {setting : Setting} {inherited around : Scope} {place : Place} {draft grown : ClassDraft}
  {key : String} {state next : State}

theorem TopTyped.scopeEffect {id : Option NodeId} {scope : Scope} {fallback : String}
    {state next : Typing.State} {outcome : Outcome}
    (typed : TopTyped setting id scope fallback state (.ok outcome) next) :
    ScopeEffect scope (.ok outcome.typed) outcome.scope := by
  rcases typed.of_ok with rfl | ⟨_, _, last, derived, same, _⟩
  · rfl
  · rw [same]
    exact derived.scopeEffect

/-- What a type mentions by a local name is visible after it. -/
theorem TopTyped.sees {id : Option NodeId} {scope : Scope} {fallback : String}
    {state next : Typing.State} {outcome : Outcome} {typed : Typed} {owner : NodeId} {name : String}
    (top : TopTyped setting id scope fallback state (.ok outcome) next)
    (present : outcome.typed = some typed) (based : typed.type.base = .model owner name .scope) :
    outcome.scope.lookup owner = some name := by
  rcases top.of_ok with rfl | ⟨_, _, last, derived, same, _⟩
  · cases present
  · rw [same]
    exact derived.finds typed (congrArg Except.ok present) owner name .scope based

theorem Settles.inStep {procedure : Procedure} {fate : Fate} {noted : List Diagnostic}
    (settled : Settles setting place draft key procedure state fate noted grown next)
    (inStep : InStep inherited draft.scope draft.models) :
    InStep inherited grown.scope grown.models := by
  cases settled with
  | excluded _ | failed _ _ _ _ => exact inStep
  | offered _ run _ =>
      obtain ⟨_, _, _, _, input, output, made⟩ := (typeProcedure_ok run).of_ok
      obtain ⟨nested, same, _⟩ := typedProcedure_ok made
      have grows := inStep.nest input.scopeEffect output.scopeEffect nested
      rw [← same] at grows
      exact grows

theorem Defines.inStep {id : NodeId} (defined : Defines setting draft key id state grown next)
    (inStep : InStep inherited draft.scope draft.models) :
    InStep inherited grown.scope grown.models := by
  cases defined with
  | skipped _ | failed _ _ _ | refused _ _ _ => exact inStep
  | declared _ typed absorbed => exact inStep.absorb typed.scopeEffect absorbed

theorem addDefinitions_inStep {definitions : List (String × NodeId)}
    (run : definitions.foldlM (addDefinition setting) draft state = .ok grown next)
    (inStep : InStep inherited draft.scope draft.models) :
    InStep inherited grown.scope grown.models := by
  refine addDefinitions_chain (R := fun draft _ grown _ =>
    InStep inherited draft.scope draft.models → InStep inherited grown.scope grown.models)
    ?_ ?_ ?_ run inStep
  · exact fun _ _ same => same
  · exact fun first second same => second (first same)
  · exact fun defines => defines.inStep

theorem Settles.lookup {procedure : Procedure} {fate : Fate} {noted : List Diagnostic}
    {id : NodeId} {name : String}
    (settled : Settles setting place draft key procedure state fate noted grown next)
    (visible : draft.scope.lookup id = some name) : grown.scope.lookup id = some name := by
  cases settled with
  | excluded _ | failed _ _ _ _ => exact visible
  | offered _ run _ =>
      obtain ⟨_, _, _, _, input, output, made⟩ := (typeProcedure_ok run).of_ok
      obtain ⟨_, same, _⟩ := typedProcedure_ok made
      have kept := output.scopeEffect.lookup (input.scopeEffect.lookup visible)
      rw [← same] at kept
      exact kept

end

/-- A type of the method comes down to the model of a node that is nested around the method. -/
def MentionsLocally (method : Method) (owner : NodeId) (name : String) : Prop :=
  ∃ type ∈ method.types, type.base = .model owner name .scope

/-- One of the classes has the model of the node nested in it. -/
def Declares (chain : List RouteClass) (owner : NodeId) (name : String) : Prop :=
  ∃ cls ∈ chain, ∃ model ∈ cls.models, model.owner = owner ∧ model.name = name

/-- A class in which every local type that a method mentions is declared on the way to the method, or
visible. -/
structure Covered (inherited : Scope) (draft : ClassDraft) : Prop where
  inStep : InStep inherited draft.scope draft.models
  methods : ∀ method ∈ draft.methods, ∀ owner name, MentionsLocally method owner name →
    draft.scope.lookup owner = some name
  children : ∀ child ∈ draft.children, ∀ chain method, child.Offers chain method →
    ∀ owner name, MentionsLocally method owner name →
      Declares chain owner name ∨ draft.scope.lookup owner = some name

namespace Covered

variable {inherited : Scope} {draft grown : ClassDraft}

theorem start (inStep : InStep inherited draft.scope draft.models) (unused : draft.methods = [])
    (childless : draft.children = []) : Covered inherited draft where
  inStep := inStep
  methods := by simp [unused]
  children := by simp [childless]

/-- What is not declared in a finished class comes from the classes around it. -/
theorem toClass (covered : Covered inherited draft) {label segment : String}
    {chain : List RouteClass} {method : Method} {owner : NodeId} {name : String}
    (offers : (draft.toClass label segment).Offers chain method)
    (mentions : MentionsLocally method owner name) :
    Declares chain owner name ∨ inherited.lookup owner = some name := by
  have own {more : List RouteClass} (visible : draft.scope.lookup owner = some name) :
      Declares (draft.toClass label segment :: more) owner name ∨
        inherited.lookup owner = some name := by
    rcases (covered.inStep.visible owner name).mp visible with above | nested
    · exact .inr above
    · exact .inl ⟨_, List.mem_cons_self, nested⟩
  cases offers with
  | own listed => exact own (covered.methods method listed owner name mentions)
  | nested listed offers =>
      rcases covered.children _ listed _ method offers owner name mentions with
        ⟨cls, inside, declared⟩ | visible
      · exact .inl ⟨cls, List.mem_cons_of_mem _ inside, declared⟩
      · exact own visible

theorem settle {setting : Setting} {place : Place} {key : String} {procedure : Procedure}
    {state next : State} {fate : Fate} {noted : List Diagnostic}
    (covered : Covered inherited draft)
    (settled : Settles setting place draft key procedure state fate noted grown next) :
    Covered inherited grown := by
  have inStep := settled.inStep covered.inStep
  have lookup {owner : NodeId} {name : String} (visible : draft.scope.lookup owner = some name) :
      grown.scope.lookup owner = some name := settled.lookup visible
  cases settled with
  | excluded _ | failed _ _ _ _ => exact covered
  | offered _ run _ =>
      obtain ⟨_, input, _, output, taken, given, made⟩ := (typeProcedure_ok run).of_ok
      obtain ⟨_, same, method⟩ := typedProcedure_ok made
      refine ⟨inStep, ?_, ?_⟩
      · intro other listed owner name mentions
        rcases List.mem_append.mp listed with listed | listed
        · exact lookup (covered.methods other listed owner name mentions)
        obtain rfl := List.mem_singleton.mp listed
        obtain ⟨type, member, based⟩ := mentions
        rw [method, Method.types, List.mem_append, Option.mem_toList, Option.mem_toList,
          Option.map_eq_some_iff, Option.map_eq_some_iff] at member
        rw [ClassDraft.offer, same]
        rcases member with ⟨typed, present, rfl⟩ | ⟨typed, present, rfl⟩
        · exact given.scopeEffect.lookup (taken.sees present based)
        · exact given.sees present based
      · intro child listed chain other offers owner name mentions
        exact (covered.children child listed chain other offers owner name mentions).imp_right lookup

/-- The class of a namespace is covered by what is visible around it. -/
theorem nest {child : ClassDraft} {label segment : String} (covered : Covered inherited draft)
    (inner : Covered draft.scope child) :
    Covered inherited (draft.nest (child.toClass label segment)) where
  inStep := covered.inStep
  methods := covered.methods
  children := by
    intro other listed chain method offers owner name mentions
    rcases List.mem_append.mp listed with listed | listed
    · exact covered.children other listed chain method offers owner name mentions
    · obtain rfl := List.mem_singleton.mp listed
      exact inner.toClass offers mentions

end Covered

theorem Assembles.covered {setting : Setting} {place : Place} {draft final : ClassDraft}
    {entries : List (String × Entry)} {state last : State} {log : List Account} {inherited : Scope}
    (assembled : Assembles setting place draft entries state log final last)
    (covered : Covered inherited draft) : Covered inherited final := by
  induction assembled generalizing inherited with
  | done => exact covered
  | procedure settled _ ih => exact ih (covered.settle settled)
  | space _ _ below ih => exact ih (covered.nest (below (.start (.start _) rfl rfl)))

/-- A point on the way through the entries of a class: what is visible around the class that is being
filled there, and that class so far. -/
inductive Passes (setting : Setting) : Scope → Place → ClassDraft → List (String × Entry) → State →
    Scope → ClassDraft → Prop where
  | here {inherited place draft entries state} :
      Passes setting inherited place draft entries state inherited draft
  | procedure {inherited place draft key procedure more state grown next around reached} :
      addProcedure setting place draft key procedure state = .ok grown next →
      Passes setting inherited place grown more next around reached →
      Passes setting inherited place draft ((key, .procedure procedure) :: more) state around reached
  | into {inherited place draft key entries more state around reached} :
      Passes setting draft.scope (place.below key (spaceName key)) { scope := draft.scope } entries
        state around reached →
      Passes setting inherited place draft ((key, .space entries) :: more) state around reached
  | past {inherited place draft key entries more state child next around reached} :
      addEntries setting (place.below key (spaceName key)) { scope := draft.scope } entries state =
        .ok child next →
      Passes setting inherited place (draft.nest (child.toClass (spaceName key) key)) more next
        around reached →
      Passes setting inherited place draft ((key, .space entries) :: more) state around reached

/-- A point on the way through the definitions and the entries of the root class. -/
inductive PassesRoot (setting : Setting) (router : String) (tree : Route.Tree)
    (definitions : Table String NodeId) : Scope → ClassDraft → Prop where
  | definitions {done more reached state} :
      wantedDefinitions setting.settings definitions = done ++ more →
      done.foldlM (addDefinition setting) { scope := {} } {} = .ok reached state →
      PassesRoot setting router tree definitions {} reached
  | entries {start state around reached} :
      (wantedDefinitions setting.settings definitions).foldlM (addDefinition setting)
        { scope := {} } {} = .ok start state →
      Passes setting {} ⟨[], [typeName router]⟩ start tree state around reached →
      PassesRoot setting router tree definitions around reached

theorem Passes.inStep {setting : Setting} {inherited around : Scope} {place : Place}
    {draft reached : ClassDraft} {entries : List (String × Entry)} {state : State}
    (passes : Passes setting inherited place draft entries state around reached)
    (inStep : InStep inherited draft.scope draft.models) :
    InStep around reached.scope reached.models := by
  induction passes with
  | here => exact inStep
  | @procedure _ place draft key procedure _ state _ _ _ _ run _ ih =>
      obtain ⟨_, _, _, _, ran, settled⟩ | ⟨_, _, _, _, _, failed⟩ :=
        addProcedure_follows setting place draft key procedure state
      · cases ran.symm.trans run
        exact ih (settled.inStep inStep)
      · cases failed.symm.trans run
  | into _ ih => exact ih (.start _)
  | past _ _ ih => exact ih inStep

theorem PassesRoot.inStep {setting : Setting} {router : String} {tree : Route.Tree}
    {definitions : Table String NodeId} {around : Scope} {reached : ClassDraft}
    (passes : PassesRoot setting router tree definitions around reached) :
    InStep around reached.scope reached.models := by
  cases passes with
  | definitions _ run => exact addDefinitions_inStep run (.start {})
  | entries run passes => exact passes.inStep (addDefinitions_inStep run (.start {}))

/-- The class is as it was, and no name has been proposed for a nested type. -/
def Untouched (draft : ClassDraft) (state : State) : EStateM.Result Abort State ClassDraft → Prop
  | .ok reached next => reached = draft ∧ next.aliases = state.aliases
  | .error _ next => next.aliases = state.aliases

theorem addProcedure_untouched {setting : Setting} (place : Place) {draft : ClassDraft}
    {key : String} {procedure : Procedure} {state : State} {failure : Failure}
    {next : Typing.State}
    (run : typeProcedure setting key procedure draft.scope draft.models state.typing =
      .error failure next) :
    Untouched draft state (addProcedure setting place draft key procedure state) := by
  cases included : isIncluded setting.settings procedure with
  | false =>
      simp only [addProcedure, included]
      exact ⟨rfl, rfl⟩
  | true =>
      rw [addProcedure_of_error _ included run]
      cases failure.isFatal with
      | true => exact rfl
      | false => exact ⟨rfl, rfl⟩

/-- The typing of a definition fails, or its model cannot be nested at the root. -/
def DefinitionFails (setting : Setting) (draft : ClassDraft) (key : String) (id : NodeId)
    (state : State) : Prop :=
  match typeTop setting (some id) draft.scope (typeName key) state.typing with
  | .error _ _ => True
  | .ok outcome _ => ∃ failure,
      draft.models.absorb? (outcome.typed.bind Typed.model) = .error failure

theorem addDefinition_untouched {setting : Setting} {draft : ClassDraft} {key : String}
    {id : NodeId} {state : State} (fails : DefinitionFails setting draft key id state) :
    Untouched draft state (addDefinition setting draft (key, id) state) := by
  by_cases skipped : ((setting.graph.node id).label.name.isNone ||
      !(setting.graph.node id).kind.isNominal) = true
  · simp only [addDefinition, if_pos skipped]
    exact ⟨rfl, rfl⟩
  obtain ⟨named, nominal⟩ : (setting.graph.label id).name.isNone = false ∧
      (setting.graph.kind id).isNominal = true := by
    simpa [Schema.Graph.label, Schema.Graph.kind, Option.isSome_iff_ne_none] using skipped
  unfold DefinitionFails at fails
  split at fails
  · next failure next run =>
    rw [addDefinition_of_error named nominal run]
    cases failure.isFatal with
    | true => exact rfl
    | false => exact ⟨rfl, rfl⟩
  · next outcome next run =>
    obtain ⟨failure, refused⟩ := fails
    rw [addDefinition_of_refused named nominal run refused]
    exact ⟨rfl, rfl⟩

/-- Wherever assembly stands, the scope of a class is what it has from around it and the owners of its
models; what fails leaves both as they were; and a local type that a method mentions is declared in
one of the classes on the way to the method. -/
theorem scope_models_in_step (setting : Setting) (router : String) (tree : Route.Tree)
    (definitions : Table String NodeId) :
    (∀ around reached, PassesRoot setting router tree definitions around reached →
      InStep around reached.scope reached.models) ∧
    (∀ place draft key procedure state failure next,
      typeProcedure setting key procedure draft.scope draft.models state.typing =
        .error failure next →
      Untouched draft state (addProcedure setting place draft key procedure state)) ∧
    (∀ draft key id state, DefinitionFails setting draft key id state →
      Untouched draft state (addDefinition setting draft (key, id) state)) ∧
    ∀ client, assemble setting.settings setting.graph router tree definitions = .ok client →
      ∀ chain method, client.root.Offers chain method → ∀ owner name,
        MentionsLocally method owner name → Declares chain owner name := by
  refine ⟨fun _ _ passes => passes.inStep, fun place _ _ _ _ _ _ run =>
    addProcedure_untouched place run, fun _ _ _ _ fails => addDefinition_untouched fails, ?_⟩
  intro client assembled chain method offers owner name mentions
  obtain ⟨start, middle, log, final, last, defined, assembled, same, _⟩ := assemble_follows assembled
  obtain ⟨unused, childless⟩ := addDefinitions_members defined
  have begun := Covered.start (addDefinitions_inStep defined (.start {})) unused childless
  rw [same] at offers
  rcases (assembled.covered begun).toClass offers mentions with declared | visible
  · exact declared
  · cases visible

/-- Two objects of one name that are declared where they are needed. -/
def twinSetting : Setting where
  graph := ⟨#[
    { kind := .object [], label := { name := some "Item" } },
    { kind := .object [], label := { name := some "Item" } }]⟩
  settings := { hoisting := .never }

/-- One of the objects is taken and the other one given. -/
def twinProcedure : Procedure where
  kind := .query
  inputs := [⟨0⟩]
  output := some ⟨1⟩

/-- The name that a failed typing of a procedure finds taken. -/
def takenName? : EStateM.Result Failure Typing.State TypedProcedure → Option String
  | .error (.nameCollision name) _ => some name
  | _ => none

/-- Each object is declared, and only then does the output's name turn out to be taken. -/
theorem twins_leave_class_alone :
    ∃ next, typeProcedure twinSetting "swap" twinProcedure {} [] {} =
        .error (.nameCollision "Item") next ∧
      Untouched { scope := {} } {}
        (addProcedure twinSetting ⟨[], ["App"]⟩ { scope := {} } "swap" twinProcedure {}) := by
  have collides : takenName? (typeProcedure twinSetting "swap" twinProcedure {} [] {}) =
      some "Item" := by
    decide +kernel
  generalize run : typeProcedure twinSetting "swap" twinProcedure {} [] {} = result at collides ⊢
  unfold takenName? at collides
  split at collides
  · next name next =>
    obtain rfl := Option.some.inj collides
    exact ⟨next, rfl, (scope_models_in_step twinSetting "app" [] []).2.1 ⟨[], ["App"]⟩
      { scope := {} } "swap" twinProcedure {} _ next run⟩
  · cases collides

end RouterClient.Client
