import RouterClient.Proofs.Client.Rules

/-! # How far failures reach in a client

A failure below a nominal node stays with a member, and one that ends a procedure alone is reported.  So
a client is assembled as soon as the types of its procedures come down to something supported.
-/

namespace RouterClient.Client

open Model (LocalModels Scope)
open Route (Entry Leaf Procedure Tree)
open Schema (NodeId Graph)
open Code (Declaration typeName)
open Typing

/-- The wrappers and collections of a type end in something that a Swift type stands for, before
typing steps stand too deep. -/
def Grounded (graph : Graph) (id : NodeId) : Prop :=
  ∃ steps core, steps < maxDepth ∧ graph.Spine id steps core ∧
    ∀ typeName, graph.kind core ≠ .unsupported typeName

/-- A procedure whose types are grounded, if it is to be in the client and can be. -/
def Serviceable (setting : Setting) (procedure : Procedure) : Prop :=
  isIncluded setting.settings procedure = true → procedure.inputs.length ≤ 1 →
    ∀ id ∈ procedure.inputs ++ procedure.output.toList, Grounded setting.graph id

section

variable {setting : Setting} {scope : Scope} {fallback key : String} {procedure : Procedure}
  {models : LocalModels Declaration} {state next : Typing.State} {failure : Failure}

theorem TopTyped.callDepth_eq {id : Option NodeId} {verdict : Except Failure Outcome}
    (typed : TopTyped setting id scope fallback state verdict next) :
    next.callDepth = state.callDepth := by
  cases typed with
  | absent => rfl
  | present derived => exact derived.callDepth_eq

/-- Grounded nodes fail only over a name. -/
theorem TopTyped.failure_eq {id : Option NodeId} (outermost : state.callDepth = 0)
    (grounded : ∀ node ∈ id, Grounded setting.graph node)
    (typed : TopTyped setting id scope fallback state (.error failure) next) :
    ∃ name, failure = .nameCollision name := by
  obtain ⟨node, events, last, rfl, derived⟩ := typed.of_error
  obtain ⟨steps, core, short, spine, supported⟩ := grounded node rfl
  have begun : (state.within scope).callDepth = 0 := outermost
  exact derived.failure_of_spine spine supported (by omega) (by omega)

/-- A nominal node is its own spine. -/
theorem grounded_of_nominal {graph : Graph} {id : NodeId}
    (nominal : (graph.kind id).isNominal = true) : Grounded graph id := by
  refine ⟨0, id, by decide, .core ?_, ?_⟩
  · cases kind : graph.kind id <;> simp_all [Schema.Kind.inside?, Schema.Kind.isNominal]
  · intro typeName kind
    simp [kind, Schema.Kind.isNominal] at nominal

theorem nest_error {typeds : List Typed} (refused : nest models typeds = .error failure) :
    ∃ name, failure = .nameCollision name := by
  induction typeds generalizing models with
  | nil => cases refused
  | cons typed more ih =>
      cases holds : typed.model with
      | none =>
          simp only [nest, holds] at refused
          exact ih refused
      | some model =>
          simp only [nest, holds] at refused
          cases absorbed : models.absorb model with
          | error taken =>
              rw [absorbed] at refused
              cases refused
              unfold LocalModels.absorb at absorbed
              split at absorbed
              · cases absorbed
              · split at absorbed <;> cases absorbed
                exact ⟨_, rfl⟩
          | ok grown =>
              rw [absorbed] at refused
              cases rest : nest grown more with
              | error taken =>
                  simp only [bind, Except.bind, rest] at refused
                  cases refused
                  exact ih rest
              | ok result => simp [bind, Except.bind, rest, pure, Except.pure] at refused

theorem ProcedureTyped.callDepth_eq {verdict : Except Failure TypedProcedure}
    (typed : ProcedureTyped setting key procedure scope models state verdict next) :
    next.callDepth = state.callDepth := by
  cases typed with
  | crowded _ => rfl
  | inputFailed _ input => exact input.callDepth_eq
  | outputFailed _ input output | typed _ input output =>
      exact output.callDepth_eq.trans input.callDepth_eq

/-- A serviceable procedure fails alone. -/
theorem ProcedureTyped.not_fatal (outermost : state.callDepth = 0)
    (included : isIncluded setting.settings procedure = true)
    (serviceable : Serviceable setting procedure)
    (typed : ProcedureTyped setting key procedure scope models state (.error failure) next) :
    failure.isFatal = false := by
  have taken {name : String} (same : failure = .nameCollision name) : failure.isFatal = false :=
    same ▸ rfl
  generalize verdictOf : (Except.error failure : Except Failure TypedProcedure) = verdict at typed
  cases typed with
  | crowded _ =>
      cases verdictOf
      rfl
  | inputFailed few input =>
      cases verdictOf
      obtain ⟨name, same⟩ := input.failure_eq outermost fun id first =>
        serviceable included few id (List.mem_append_left _ (List.mem_of_head? first))
      exact taken same
  | outputFailed few input output =>
      cases verdictOf
      obtain ⟨name, same⟩ := output.failure_eq (input.callDepth_eq.trans outermost) fun id given =>
        serviceable included few id (List.mem_append_right _ (Option.mem_toList.mpr given))
      exact taken same
  | @typed input _ output _ few _ _ =>
      unfold typedProcedure at verdictOf
      cases nested : nest models (input.typed.toList ++ output.typed.toList) with
      | error refused =>
          rw [nested] at verdictOf
          cases verdictOf
          obtain ⟨name, same⟩ := nest_error nested
          exact taken same
      | ok result =>
          rw [nested] at verdictOf
          cases verdictOf

end

section

variable {setting : Setting} {place : Place} {draft grown : ClassDraft} {key : String}
  {state next : State}

theorem Settles.callDepth_eq {procedure : Procedure} {fate : Fate} {noted : List Diagnostic}
    (settled : Settles setting place draft key procedure state fate noted grown next) :
    next.typing.callDepth = state.typing.callDepth := by
  cases settled with
  | excluded _ => rfl
  | failed _ run _ _ =>
      have kept := (typeProcedure_error run).callDepth_eq
      exact kept
  | offered _ run _ =>
      have kept := (typeProcedure_ok run).callDepth_eq
      exact kept

theorem Defines.callDepth_eq {id : NodeId}
    (defined : Defines setting draft key id state grown next) :
    next.typing.callDepth = state.typing.callDepth := by
  cases defined with
  | skipped _ => rfl
  | failed _ typed _ | refused _ typed _ | declared _ typed _ =>
      have kept := typed.callDepth_eq
      exact kept

theorem addProcedure_total (place : Place) (draft : ClassDraft) (key : String)
    {procedure : Procedure} (outermost : state.typing.callDepth = 0)
    (serviceable : Serviceable setting procedure) :
    ∃ grown next, addProcedure setting place draft key procedure state = .ok grown next ∧
      next.typing.callDepth = 0 := by
  obtain ⟨_, _, grown, next, run, settled⟩ | ⟨failure, next, included, typed, fatal, _⟩ :=
    addProcedure_follows setting place draft key procedure state
  · exact ⟨grown, next, run, settled.callDepth_eq.trans outermost⟩
  · rw [typed.not_fatal outermost included serviceable] at fatal
    cases fatal

/-- A class whose procedures are serviceable, those of the namespaces below it included, is filled
with all its entries. -/
theorem addEntries_total (place : Place) (draft : ClassDraft) {entries : List (String × Entry)}
    (outermost : state.typing.callDepth = 0)
    (serviceable : ∀ leaf ∈ Tree.leaves entries, Serviceable setting leaf.2) :
    ∃ grown next, addEntries setting place draft entries state = .ok grown next ∧
      next.typing.callDepth = 0 := by
  induction place, draft, entries using addEntries.induct generalizing state with
  | case1 place draft =>
      rw [addEntries]
      exact ⟨draft, state, rfl, outermost⟩
  | case2 place draft key procedure more ih =>
      simp only [Tree.leaves, Entry.leaves, List.map_cons, List.map_nil, Leaf.under,
        List.singleton_append, List.forall_mem_cons] at serviceable
      obtain ⟨grown, middle, run, outermost⟩ :=
        addProcedure_total place draft key outermost serviceable.1
      rw [addEntries, bind_of_ok run]
      exact ih grown outermost serviceable.2
  | case3 place draft key entries more below ih =>
      simp only [Tree.leaves, Entry.leaves, List.forall_mem_append, List.forall_mem_map,
        Leaf.under] at serviceable
      obtain ⟨child, middle, run, outermost⟩ := below outermost serviceable.1
      rw [addEntries, bind_of_ok run]
      exact ih child outermost serviceable.2

/-- Definitions are nominal, so none of them ends the run. -/
theorem addDefinitions_total (setting : Setting) (definitions : List (String × NodeId))
    (draft : ClassDraft) (outermost : state.typing.callDepth = 0) :
    ∃ grown next, definitions.foldlM (addDefinition setting) draft state = .ok grown next ∧
      next.typing.callDepth = 0 := by
  induction definitions generalizing draft state with
  | nil => exact ⟨draft, state, rfl, outermost⟩
  | cons definition more ih =>
      obtain ⟨key, id⟩ := definition
      rw [List.foldlM_cons]
      obtain ⟨grown, next, run, defined⟩ | ⟨failure, next, nominal, typed, fatal, _⟩ :=
        addDefinition_follows setting draft key id state
      · rw [bind_of_ok run]
        exact ih grown (defined.callDepth_eq.trans outermost)
      · have grounded : ∀ node ∈ some id, Grounded setting.graph node := by
          rintro _ ⟨⟩
          exact grounded_of_nominal nominal
        obtain ⟨name, rfl⟩ := typed.failure_eq outermost grounded
        cases fatal

end

/-- A client is assembled if its procedures are serviceable. -/
theorem assemble_total {settings : Settings} {graph : Graph} {tree : Route.Tree} (router : String)
    (definitions : Table String NodeId)
    (serviceable : ∀ leaf ∈ tree.leaves, Serviceable ⟨graph, settings⟩ leaf.2) :
    ∃ client, assemble settings graph router tree definitions = .ok client := by
  have begun : ({} : State).typing.callDepth = 0 := rfl
  obtain ⟨start, middle, defined, outermost⟩ :=
    addDefinitions_total ⟨graph, settings⟩ (wantedDefinitions settings definitions) { scope := {} }
      begun
  obtain ⟨root, last, entered, _⟩ :=
    addEntries_total ⟨[], [typeName router]⟩ start outermost serviceable
  have run : assembleRoot ⟨graph, settings⟩ router tree definitions {} =
      .ok (root.toClass (typeName router) router) last := by
    rw [assembleRoot_eq, bind_of_ok defined, bind_of_ok entered]
    rfl
  unfold assemble
  rw [run]
  exact ⟨_, rfl⟩

/-- A file is generated for a router whose paths make a tree if the types of its procedures come down,
through a bounded number of wrappers and collections, to something supported; nothing below a nominal
node and no definition can prevent it.  For a nominal node that is entered fails only because its own
global name is taken. -/
theorem failures_contained :
    (∀ settings document router template procedures tree,
      document.router router = .ok procedures → Tree.ofProcedures procedures = .ok tree →
      (∀ entry ∈ procedures, Serviceable ⟨document.graph, settings⟩ entry.2) →
      ∃ generation, generate settings document router template = .ok generation) ∧
    ∀ graph settings budget id site state failure next,
      (graph.kind id).isNominal = true →
      state.callDepth < maxDepth → maxDepth ≤ budget + state.callDepth →
      typeWithin graph settings budget id site state = .error failure next →
      failure = .nameCollision (state.nameFor id (proposedName graph id site)) ∧
        isGlobal settings (graph.label id) (site.declared.map graph.label) site.depth = true := by
  refine ⟨?_, ?_⟩
  · intro settings document router template procedures tree found built serviceable
    have served : ∀ leaf ∈ tree.leaves, Serviceable ⟨document.graph, settings⟩ leaf.2 := by
      intro leaf listed
      have located := (Route.ofProcedures_holds built).2.perm.subset listed
      obtain ⟨entry, member, rfl⟩ := List.mem_map.mp located
      exact serviceable entry member
    obtain ⟨client, assembled⟩ := assemble_total router document.definitions served
    refine ⟨client.generation settings template, ?_⟩
    simp only [generate, ofDocument, found, built, Except.mapError, bind, Except.bind, assembled,
      Except.map]
  · intro graph settings budget id site state failure next nominal room reach failed
    obtain ⟨events, verdict, last, run, derived⟩ :=
      typeWithin_follows graph settings budget id site state
    cases verdict with
    | ok typed => cases run.symm.trans failed
    | error other =>
        cases run.symm.trans failed
        exact derived.nominal_failure nominal room reach

/-- A form with a field that no type stands for and a field that wraps itself, and another definition
of the form's name. -/
def brokenDocument : Document where
  graph := ⟨#[
    { kind := .unsupported "function" },
    { kind := .optional ⟨1⟩ },
    { kind := .primitive .string },
    { kind := .object [("action", ⟨0⟩), ("self", ⟨1⟩), ("title", ⟨2⟩)]
      label := { name := some "Form" } },
    { kind := .object [("title", ⟨2⟩)], label := { name := some "Form" } }]⟩
  definitions := [("Form", ⟨3⟩), ("Other", ⟨4⟩)]
  routers := [("app", [("send", { kind := .mutation, inputs := [⟨3⟩] })])]

theorem broken_document_generated :
    Grounded brokenDocument.graph ⟨3⟩ ∧
    ∃ generation, generate { models := .all } brokenDocument "app" "" = .ok generation := by
  have grounded : Grounded brokenDocument.graph ⟨3⟩ := grounded_of_nominal rfl
  refine ⟨grounded, failures_contained.1 { models := .all } brokenDocument "app" ""
    [("send", { kind := .mutation, inputs := [⟨3⟩] })] _ rfl rfl ?_⟩
  intro entry listed _ _ id mentioned
  obtain rfl := List.mem_singleton.mp listed
  obtain rfl := List.mem_singleton.mp mentioned
  exact grounded

end RouterClient.Client
