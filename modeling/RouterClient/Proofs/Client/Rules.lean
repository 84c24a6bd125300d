import RouterClient.Client.Assembly
import RouterClient.Proofs.Route.Nesting
import RouterClient.Proofs.Typing.Containment
import RouterClient.Proofs.Typing.Registry

/-! # The rules of assembly

Assembly written down step by step, beside the functions that carry it out.  A derivation of a class
also keeps an account of every procedure that the run has come to, in the order of the tree: what has
become of it, and what has been reported on the way.
-/

namespace RouterClient.Client

open Model (LocalModels Scope)
open Route (Entry Procedure join)
open Schema (NodeId)
open Code (Declaration Method RouteClass typeName)
open Typing

/-- A step of typing, by what it comes to and where it ends. -/
theorem typing_ending {α : Type} {step : TypingM α} {state : State} {verdict : Except Failure α}
    {next : Typing.State} (run : step state.typing = ending verdict next) :
    typing step state = .ok verdict { state with typing := next } := by
  cases verdict <;> simp only [typing, run, ending]

theorem bind_ok {ε σ α β : Type} {step : EStateM ε σ α} {more : α → EStateM ε σ β}
    {state last : σ} {result : β} (run : (step >>= more) state = .ok result last) :
    ∃ between next, step state = .ok between next ∧ more between next = .ok result last := by
  simp only [bind, EStateM.bind] at run
  cases first : step state with
  | ok between next =>
      rw [first] at run
      exact ⟨between, next, rfl, run⟩
  | error failure next =>
      rw [first] at run
      cases run

theorem bind_of_ok {ε σ α β : Type} {step : EStateM ε σ α} {more : α → EStateM ε σ β}
    {state next : σ} {between : α} (run : step state = .ok between next) :
    (step >>= more) state = more between next := by
  simp only [bind, EStateM.bind, run]

/-- What comes after a step is to blame for a failure, or else the step itself. -/
theorem bind_error {ε σ α β : Type} {step : EStateM ε σ α} {more : α → EStateM ε σ β}
    {state last : σ} {failure : ε} (run : (step >>= more) state = .error failure last) :
    step state = .error failure last ∨
      ∃ between next, step state = .ok between next ∧ more between next = .error failure last := by
  simp only [bind, EStateM.bind] at run
  cases first : step state with
  | ok between next =>
      rw [first] at run
      exact .inr ⟨between, next, rfl, run⟩
  | error failure next =>
      rw [first] at run
      cases run
      exact .inl rfl

theorem bind_of_error {ε σ α β : Type} {step : EStateM ε σ α} {more : α → EStateM ε σ β}
    {state last : σ} {failure : ε} (run : step state = .error failure last) :
    (step >>= more) state = .error failure last := by
  simp only [bind, EStateM.bind, run]

/-- What is evaluated to a result that passes a test has such a result. -/
theorem exists_of_passed {ε α : Type} {outcome : Except ε α} {test : α → Bool}
    (passed : outcome.toOption.any test = true) : ∃ result, outcome = .ok result ∧ test result = true := by
  cases outcome with
  | error failure => cases passed
  | ok result => exact ⟨result, rfl, passed⟩

/-- Types join a class one after the other. -/
theorem nest_cons {models all : LocalModels Declaration} {typed : Typed} {more : List Typed}
    {names : List String} (nested : nest models (typed :: more) = .ok (all, names)) :
    ∃ grown introduced, models.absorb? typed.model = .ok grown ∧
      nest grown more = .ok (all, introduced) := by
  cases holds : typed.model with
  | none =>
      simp only [nest, holds] at nested
      exact ⟨models, names, rfl, nested⟩
  | some model =>
      simp only [nest, holds] at nested
      cases absorbed : models.absorb model with
      | error failure =>
          rw [absorbed] at nested
          cases nested
      | ok grown =>
          rw [absorbed] at nested
          cases rest : nest grown more with
          | error failure => simp [bind, Except.bind, rest] at nested
          | ok result =>
              obtain ⟨last, introduced⟩ := result
              simp only [bind, Except.bind, rest, pure, Except.pure, Except.ok.injEq,
                Prod.mk.injEq] at nested
              obtain ⟨rfl, _⟩ := nested
              exact ⟨grown, introduced, absorbed, rest⟩

/-- An input and an output join a class, the input first. -/
theorem nest_pair {models all : LocalModels Declaration} {input output : Option Typed}
    {names : List String} (nested : nest models (input.toList ++ output.toList) = .ok (all, names)) :
    ∃ grown, models.absorb? (input.bind Typed.model) = .ok grown ∧
      grown.absorb? (output.bind Typed.model) = .ok all := by
  have last {models : LocalModels Declaration} {names : List String}
      (nested : nest models output.toList = .ok (all, names)) :
      models.absorb? (output.bind Typed.model) = .ok all := by
    cases output with
    | none =>
        cases nested
        rfl
    | some typed =>
        obtain ⟨grown, _, absorbed, rest⟩ := nest_cons nested
        cases rest
        exact absorbed
  cases input with
  | none => exact ⟨models, rfl, last nested⟩
  | some typed =>
      obtain ⟨grown, _, absorbed, rest⟩ := nest_cons nested
      exact ⟨grown, absorbed, last rest⟩

/-- The types of a procedure join its class, the input's before the output's. -/
theorem typedProcedure_ok {key : String} {procedure : Procedure}
    {models : LocalModels Declaration} {input output : Outcome} {typed : TypedProcedure}
    (made : typedProcedure key procedure models input output = .ok typed) :
    nest models (input.typed.toList ++ output.typed.toList) = .ok (typed.models, typed.introduced) ∧
      typed.scope = output.scope ∧
      typed.method = {
        key
        kind := procedure.kind
        description := procedure.remark.description
        input := input.typed.map Typed.type
        output := output.typed.map Typed.type } := by
  cases nested : nest models (input.typed.toList ++ output.typed.toList) with
  | error failure => simp [typedProcedure, bind, Except.bind, nested] at made
  | ok result =>
      simp only [typedProcedure, bind, Except.bind, nested, pure, Except.pure,
        Except.ok.injEq] at made
      subst made
      exact ⟨rfl, rfl, rfl⟩

section

variable (setting : Setting)

/-- The typing of an input, an output or a definition, where there is one. -/
inductive TopTyped : Option NodeId → Scope → String → Typing.State → Except Failure Outcome →
    Typing.State → Prop where
  | absent {scope fallback state} :
      TopTyped none scope fallback state (.ok ⟨none, scope⟩) state
  | present {id scope fallback state events verdict next} :
      Derives setting.graph setting.settings maxDepth id { fallback } (state.within scope) events
        verdict next →
      TopTyped (some id) scope fallback state (verdict.map fun typed => ⟨typed, next.scope⟩)
        (next.within state.scope)

/-- The typing of a procedure in a class that has a scope and some models. -/
inductive ProcedureTyped (key : String) (procedure : Procedure) (scope : Scope)
    (models : LocalModels Declaration) (state : Typing.State) :
    Except Failure TypedProcedure → Typing.State → Prop where
  | crowded :
      1 < procedure.inputs.length →
      ProcedureTyped key procedure scope models state (.error .multipleInputs) state
  | inputFailed {failure next} :
      procedure.inputs.length ≤ 1 →
      TopTyped setting procedure.inputs.head? scope (typeName key ++ "Input") state
        (.error failure) next →
      ProcedureTyped key procedure scope models state (.error failure) next
  | outputFailed {input middle failure next} :
      procedure.inputs.length ≤ 1 →
      TopTyped setting procedure.inputs.head? scope (typeName key ++ "Input") state (.ok input)
        middle →
      TopTyped setting procedure.output input.scope (typeName key ++ "Output") middle
        (.error failure) next →
      ProcedureTyped key procedure scope models state (.error failure) next
  | typed {input middle output next} :
      procedure.inputs.length ≤ 1 →
      TopTyped setting procedure.inputs.head? scope (typeName key ++ "Input") state (.ok input)
        middle →
      TopTyped setting procedure.output input.scope (typeName key ++ "Output") middle (.ok output)
        next →
      ProcedureTyped key procedure scope models state
        (typedProcedure key procedure models input output) next

end

/-- What becomes of a procedure in its class. -/
inductive Fate where
  | excluded
  | failed (failure : Failure)
  | offered (method : Method)

def Fate.method? : Fate → Option Method
  | offered method => some method
  | excluded | failed _ => none

/-- What assembly reports about a procedure under its path. -/
def Fate.reports (path : String) : Fate → List Diagnostic
  | failed failure => [⟨path, failure⟩]
  | excluded | offered _ => []

/-- A class with the method, the scope and the models of one more procedure. -/
def ClassDraft.offer (draft : ClassDraft) (typed : TypedProcedure) : ClassDraft where
  scope := typed.scope
  models := typed.models
  methods := draft.methods ++ [typed.method]
  children := draft.children

/-- A class with one more class nested in it. -/
def ClassDraft.nest (draft : ClassDraft) (child : RouteClass) : ClassDraft :=
  { draft with children := draft.children ++ [child] }

section

variable (setting : Setting)

/-- A procedure that is settled in its class without an end to the run, and what typing has reported
about parts of its models. -/
inductive Settles (place : Place) (draft : ClassDraft) (key : String) (procedure : Procedure)
    (state : State) : Fate → List Diagnostic → ClassDraft → State → Prop where
  | excluded :
      isIncluded setting.settings procedure = false →
      Settles place draft key procedure state .excluded [] draft state
  | failed {failure noted next} :
      isIncluded setting.settings procedure = true →
      typeProcedure setting key procedure draft.scope draft.models state.typing =
        .error failure next →
      failure.isFatal = false →
      next.diagnostics = state.typing.diagnostics ++ noted →
      Settles place draft key procedure state (.failed failure) noted draft
        { state with typing := next.note (place.path key) (some failure) }
  | offered {typed noted next} :
      isIncluded setting.settings procedure = true →
      typeProcedure setting key procedure draft.scope draft.models state.typing =
        .ok typed next →
      next.diagnostics = state.typing.diagnostics ++ noted →
      Settles place draft key procedure state (.offered typed.method) noted (draft.offer typed)
        { typing := next, aliases := state.aliases ++ typed.introduced.map place.alias }

/-- A node that is declared for its own sake: a model with a name. -/
structure IsNamedModel (graph : Schema.Graph) (id : NodeId) : Prop where
  named : (graph.label id).name.isNone = false
  nominal : (graph.kind id).isNominal = true

/-- A definition that is settled in the root class without an end to the run. -/
inductive Defines (draft : ClassDraft) (key : String) (id : NodeId) (state : State) :
    ClassDraft → State → Prop where
  | skipped :
      (setting.graph.label id).name.isNone = true ∨ (setting.graph.kind id).isNominal = false →
      Defines draft key id state draft state
  | failed {failure next} :
      IsNamedModel setting.graph id →
      TopTyped setting (some id) draft.scope (typeName key) state.typing (.error failure) next →
      failure.isFatal = false →
      Defines draft key id state draft
        { state with typing := next.note ("schemas." ++ key) (some failure) }
  | refused {outcome failure next} :
      IsNamedModel setting.graph id →
      TopTyped setting (some id) draft.scope (typeName key) state.typing (.ok outcome) next →
      draft.models.absorb? (outcome.typed.bind Typed.model) = .error failure →
      Defines draft key id state draft
        { state with typing := next.note ("schemas." ++ key) (some failure) }
  | declared {outcome models next} :
      IsNamedModel setting.graph id →
      TopTyped setting (some id) draft.scope (typeName key) state.typing (.ok outcome) next →
      draft.models.absorb? (outcome.typed.bind Typed.model) = .ok models →
      Defines draft key id state { draft with scope := outcome.scope, models }
        { state with typing := next }

/-- What a run has made of a procedure. -/
structure Account where
  /-- The segments of the procedure's path. -/
  steps : List String
  procedure : Procedure
  fate : Fate
  /-- What typing has reported about parts of the procedure's models. -/
  noted : List Diagnostic

/-- All that has been reported on account of a procedure. -/
def Account.diagnostics (account : Account) : List Diagnostic :=
  account.noted ++ account.fate.reports (join account.steps)

/-- A class that is filled with entries up to the last, with the accounts of the procedures among and
below them. -/
inductive Assembles : Place → ClassDraft → List (String × Entry) → State → List Account →
    ClassDraft → State → Prop where
  | done {place draft state} : Assembles place draft [] state [] draft state
  | procedure {place draft key procedure more state fate noted grown next log final last} :
      Settles setting place draft key procedure state fate noted grown next →
      Assembles place grown more next log final last →
      Assembles place draft ((key, .procedure procedure) :: more) state
        (⟨place.segments ++ [key], procedure, fate, noted⟩ :: log) final last
  | space {place draft key entries more state below child next log final last} :
      Assembles (place.below key (spaceName key)) { scope := draft.scope } entries state below child
        next →
      Assembles place (draft.nest (child.toClass (spaceName key) key)) more next log final last →
      Assembles place draft ((key, .space entries) :: more) state (below ++ log) final last

end

section

variable {setting : Setting}

theorem typeTop_follows (setting : Setting) (id : Option NodeId) (scope : Scope)
    (fallback : String) (state : Typing.State) :
    ∃ verdict next, typeTop setting id scope fallback state = ending verdict next ∧
      TopTyped setting id scope fallback state verdict next := by
  cases id with
  | none => exact ⟨_, state, rfl, .absent⟩
  | some id =>
      obtain ⟨events, verdict, next, derived, run⟩ :=
        typeAt_derives setting.graph setting.settings id { scope, fallback } state
      exact ⟨_, _, run, .present derived⟩

/-- A procedure whose input fails is not typed any further. -/
theorem typeProcedure_of_input {key : String} {procedure : Procedure} {scope : Scope}
    {state next : Typing.State} {failure : Failure} (models : LocalModels Declaration)
    (few : procedure.inputs.length ≤ 1)
    (failed : typeTop setting procedure.inputs.head? scope (typeName key ++ "Input") state =
      .error failure next) :
    typeProcedure setting key procedure scope models state = .error failure next := by
  simp only [typeProcedure, bind, EStateM.bind, if_neg (Nat.not_lt.mpr few), pure, failed]

theorem typeProcedure_of_output {key : String} {procedure : Procedure} {scope : Scope}
    {state middle next : Typing.State} {input : Outcome} {failure : Failure}
    (models : LocalModels Declaration) (few : procedure.inputs.length ≤ 1)
    (taken : typeTop setting procedure.inputs.head? scope (typeName key ++ "Input") state =
      .ok input middle)
    (failed : typeTop setting procedure.output input.scope (typeName key ++ "Output") middle =
      .error failure next) :
    typeProcedure setting key procedure scope models state = .error failure next := by
  simp only [typeProcedure, bind, EStateM.bind, if_neg (Nat.not_lt.mpr few), pure, taken, failed]

theorem typeProcedure_follows (setting : Setting) (key : String) (procedure : Procedure)
    (scope : Scope) (models : LocalModels Declaration) (state : Typing.State) :
    ∃ verdict next, typeProcedure setting key procedure scope models state = ending verdict next ∧
      ProcedureTyped setting key procedure scope models state verdict next := by
  by_cases many : procedure.inputs.length > 1
  · refine ⟨.error .multipleInputs, state, ?_, .crowded many⟩
    simp only [typeProcedure, bind, EStateM.bind, if_pos many]
    rfl
  have few := Nat.le_of_not_lt many
  obtain ⟨verdict, middle, ran, input⟩ :=
    typeTop_follows setting procedure.inputs.head? scope (typeName key ++ "Input") state
  cases verdict with
  | error failure =>
      exact ⟨.error failure, middle, typeProcedure_of_input models few ran, .inputFailed few input⟩
  | ok found =>
      obtain ⟨verdict, next, ran', output⟩ :=
        typeTop_follows setting procedure.output found.scope (typeName key ++ "Output") middle
      cases verdict with
      | error failure =>
          exact ⟨.error failure, next, typeProcedure_of_output models few ran ran',
            .outputFailed few input output⟩
      | ok given =>
          refine ⟨typedProcedure key procedure models found given, next, ?_,
            .typed few input output⟩
          simp only [typeProcedure, bind, EStateM.bind, if_neg many, pure, ran, ending, ran']
          cases typedProcedure key procedure models found given <;> rfl

section

variable {key : String} {procedure : Procedure} {scope : Scope} {models : LocalModels Declaration}
  {state next : Typing.State}

theorem typeProcedure_derived {verdict : Except Failure TypedProcedure}
    (run : typeProcedure setting key procedure scope models state = ending verdict next) :
    ProcedureTyped setting key procedure scope models state verdict next := by
  obtain ⟨other, last, run', typed⟩ :=
    typeProcedure_follows setting key procedure scope models state
  obtain ⟨rfl, rfl⟩ := ending_inj (run.symm.trans run')
  exact typed

theorem typeProcedure_ok {typed : TypedProcedure}
    (run : typeProcedure setting key procedure scope models state = .ok typed next) :
    ProcedureTyped setting key procedure scope models state (.ok typed) next :=
  typeProcedure_derived run

theorem typeProcedure_error {failure : Failure}
    (run : typeProcedure setting key procedure scope models state = .error failure next) :
    ProcedureTyped setting key procedure scope models state (.error failure) next :=
  typeProcedure_derived run

end

/-- The outcome is that of a derivation, unless there is nothing to type. -/
theorem TopTyped.of_ok {id : Option NodeId} {scope : Scope} {fallback : String}
    {state next : Typing.State} {outcome : Outcome}
    (typed : TopTyped setting id scope fallback state (.ok outcome) next) :
    outcome = ⟨none, scope⟩ ∨
    ∃ node events last, Derives setting.graph setting.settings maxDepth node { fallback }
        (state.within scope) events (.ok outcome.typed) last ∧
      outcome.scope = last.scope ∧ next = last.within state.scope := by
  generalize verdictOf : (Except.ok outcome : Except Failure Outcome) = verdict at typed
  cases typed with
  | absent =>
      cases verdictOf
      exact .inl rfl
  | @present node _ _ _ events verdict last derived =>
      cases verdict with
      | error failure => cases verdictOf
      | ok typed =>
          cases verdictOf
          exact .inr ⟨node, events, last, derived, rfl, rfl⟩

/-- Only the typing of a node fails. -/
theorem TopTyped.of_error {id : Option NodeId} {scope : Scope} {fallback : String}
    {state next : Typing.State} {failure : Failure}
    (typed : TopTyped setting id scope fallback state (.error failure) next) :
    ∃ node events last, id = some node ∧
      Derives setting.graph setting.settings maxDepth node { fallback } (state.within scope) events
        (.error failure) last := by
  generalize verdictOf : (Except.error failure : Except Failure Outcome) = verdict at typed
  cases typed with
  | absent => cases verdictOf
  | @present node _ _ _ events verdict last derived =>
      cases verdict with
      | ok typed => cases verdictOf
      | error inside =>
          cases verdictOf
          exact ⟨node, events, last, rfl, derived⟩

/-- A procedure is typed when its input and its output are, and their models join the class. -/
theorem ProcedureTyped.of_ok {key : String} {procedure : Procedure} {scope : Scope}
    {models : LocalModels Declaration} {state next : Typing.State} {typed : TypedProcedure}
    (ended : ProcedureTyped setting key procedure scope models state (.ok typed) next) :
    procedure.inputs.length ≤ 1 ∧ ∃ input middle output,
      TopTyped setting procedure.inputs.head? scope (typeName key ++ "Input") state (.ok input)
        middle ∧
      TopTyped setting procedure.output input.scope (typeName key ++ "Output") middle (.ok output)
        next ∧
      typedProcedure key procedure models input output = .ok typed := by
  generalize verdictOf : (Except.ok typed : Except Failure TypedProcedure) = verdict at ended
  cases ended with
  | crowded _ | inputFailed _ _ | outputFailed _ _ _ => cases verdictOf
  | typed few input output => exact ⟨few, _, _, _, input, output, rfl⟩

theorem TopTyped.diagnostics_prefix {id : Option NodeId} {scope : Scope} {fallback : String}
    {state next : Typing.State} {verdict : Except Failure Outcome}
    (typed : TopTyped setting id scope fallback state verdict next) :
    state.diagnostics <+: next.diagnostics := by
  cases typed with
  | absent => exact List.prefix_rfl
  | present derived =>
      have grows := derived.diagnostics_prefix
      exact grows

theorem ProcedureTyped.diagnostics_prefix {key : String} {procedure : Procedure} {scope : Scope}
    {models : LocalModels Declaration} {state next : Typing.State}
    {verdict : Except Failure TypedProcedure}
    (typed : ProcedureTyped setting key procedure scope models state verdict next) :
    state.diagnostics <+: next.diagnostics := by
  cases typed with
  | crowded _ => exact List.prefix_rfl
  | inputFailed _ input => exact input.diagnostics_prefix
  | outputFailed _ input output | typed _ input output =>
      exact input.diagnostics_prefix.trans output.diagnostics_prefix

theorem addProcedure_of_error (place : Place) {draft : ClassDraft} {key : String}
    {procedure : Procedure} {state : State} {failure : Failure} {next : Typing.State}
    (included : isIncluded setting.settings procedure = true)
    (run : typeProcedure setting key procedure draft.scope draft.models state.typing =
      ending (.error failure) next) :
    addProcedure setting place draft key procedure state =
      if failure.isFatal then
        .error ⟨failure, some (place.path key), next.diagnostics⟩ { state with typing := next }
      else .ok draft { state with typing := next.note (place.path key) (some failure) } := by
  have wanted : ¬ (!isIncluded setting.settings procedure) = true := by simp [included]
  unfold addProcedure
  rw [if_neg wanted, bind_of_ok (typing_ending run)]
  cases fatal : failure.isFatal <;> simp only [fatal] <;> rfl

/-- A procedure is settled, or its failure ends the run. -/
theorem addProcedure_follows (setting : Setting) (place : Place) (draft : ClassDraft) (key : String)
    (procedure : Procedure) (state : State) :
    (∃ fate noted grown next,
      addProcedure setting place draft key procedure state = .ok grown next ∧
      Settles setting place draft key procedure state fate noted grown next) ∨
    ∃ failure next, isIncluded setting.settings procedure = true ∧
      ProcedureTyped setting key procedure draft.scope draft.models state.typing (.error failure)
        next ∧
      failure.isFatal = true ∧
      addProcedure setting place draft key procedure state =
        .error ⟨failure, some (place.path key), next.diagnostics⟩ { state with typing := next } := by
  cases included : isIncluded setting.settings procedure with
  | false =>
      refine .inl ⟨.excluded, [], draft, state, ?_, .excluded included⟩
      simp only [addProcedure, included]
      rfl
  | true =>
      obtain ⟨verdict, next, run, typed⟩ :=
        typeProcedure_follows setting key procedure draft.scope draft.models state.typing
      obtain ⟨noted, same⟩ := typed.diagnostics_prefix
      cases verdict with
      | ok result =>
          refine .inl ⟨_, noted, _, _, ?_, .offered included run same.symm⟩
          have wanted : ¬ (!isIncluded setting.settings procedure) = true := by simp [included]
          unfold addProcedure
          rw [if_neg wanted, bind_of_ok (typing_ending run)]
          rfl
      | error failure =>
          have ended := addProcedure_of_error place included run
          cases fatal : failure.isFatal with
          | true => exact .inr ⟨failure, next, rfl, typed, fatal, by rw [ended, if_pos fatal]⟩
          | false =>
              exact .inl ⟨_, noted, _, _, by rw [ended, fatal]; rfl,
                .failed included run fatal same.symm⟩

theorem addDefinition_of_error {draft : ClassDraft} {key : String} {id : NodeId} {state : State}
    {failure : Failure} {next : Typing.State}
    (named : (setting.graph.label id).name.isNone = false)
    (nominal : (setting.graph.kind id).isNominal = true)
    (run : typeTop setting (some id) draft.scope (typeName key) state.typing =
      ending (.error failure) next) :
    addDefinition setting draft (key, id) state =
      if failure.isFatal then
        .error ⟨failure, none, next.diagnostics⟩ { state with typing := next }
      else .ok draft { state with typing := next.note ("schemas." ++ key) (some failure) } := by
  have wanted : ¬ ((setting.graph.node id).label.name.isNone ||
      !(setting.graph.node id).kind.isNominal) = true := by
    simp only [Schema.Graph.label, Schema.Graph.kind] at named nominal
    simp [named, nominal]
  simp only [addDefinition, if_neg wanted]
  rw [bind_of_ok (typing_ending run)]
  cases fatal : failure.isFatal <;> simp only [fatal] <;> rfl

theorem addDefinition_of_refused {draft : ClassDraft} {key : String} {id : NodeId} {state : State}
    {outcome : Outcome} {failure : Failure} {next : Typing.State}
    (named : (setting.graph.label id).name.isNone = false)
    (nominal : (setting.graph.kind id).isNominal = true)
    (run : typeTop setting (some id) draft.scope (typeName key) state.typing =
      ending (.ok outcome) next)
    (refused : draft.models.absorb? (outcome.typed.bind Typed.model) = .error failure) :
    addDefinition setting draft (key, id) state =
      .ok draft { state with typing := next.note ("schemas." ++ key) (some failure) } := by
  have wanted : ¬ ((setting.graph.node id).label.name.isNone ||
      !(setting.graph.node id).kind.isNominal) = true := by
    simp only [Schema.Graph.label, Schema.Graph.kind] at named nominal
    simp [named, nominal]
  simp only [addDefinition, if_neg wanted]
  rw [bind_of_ok (typing_ending run)]
  simp only [refused]
  rfl

theorem addDefinition_follows (setting : Setting) (draft : ClassDraft) (key : String) (id : NodeId)
    (state : State) :
    (∃ grown next, addDefinition setting draft (key, id) state = .ok grown next ∧
      Defines setting draft key id state grown next) ∨
    ∃ failure next, (setting.graph.kind id).isNominal = true ∧
      TopTyped setting (some id) draft.scope (typeName key) state.typing (.error failure) next ∧
      failure.isFatal = true ∧
      addDefinition setting draft (key, id) state =
        .error ⟨failure, none, next.diagnostics⟩ { state with typing := next } := by
  by_cases skipped : ((setting.graph.node id).label.name.isNone ||
      !(setting.graph.node id).kind.isNominal) = true
  · refine .inl ⟨draft, state, ?_, .skipped ?_⟩
    · simp only [addDefinition, if_pos skipped]
      rfl
    · simpa [Schema.Graph.label, Schema.Graph.kind] using skipped
  obtain ⟨named, nominal⟩ : (setting.graph.label id).name.isNone = false ∧
      (setting.graph.kind id).isNominal = true := by
    simpa [Schema.Graph.label, Schema.Graph.kind, Option.isSome_iff_ne_none] using skipped
  obtain ⟨verdict, next, run, typed⟩ :=
    typeTop_follows setting (some id) draft.scope (typeName key) state.typing
  cases verdict with
  | error failure =>
      have ended := addDefinition_of_error named nominal run
      cases fatal : failure.isFatal with
      | true => exact .inr ⟨failure, next, nominal, typed, fatal, by rw [ended, if_pos fatal]⟩
      | false => exact .inl ⟨_, _, by rw [ended, fatal]; rfl, .failed ⟨named, nominal⟩ typed fatal⟩
  | ok outcome =>
      cases absorbed : draft.models.absorb? (outcome.typed.bind Typed.model) with
      | error failure =>
          exact .inl ⟨_, _, addDefinition_of_refused named nominal run absorbed,
            .refused ⟨named, nominal⟩ typed absorbed⟩
      | ok models =>
          refine .inl ⟨_, _, ?_, .declared ⟨named, nominal⟩ typed absorbed⟩
          simp only [addDefinition, if_neg skipped]
          rw [bind_of_ok (typing_ending run)]
          simp only [absorbed]
          rfl

theorem Settles.members {place : Place} {draft grown : ClassDraft} {key : String}
    {procedure : Procedure} {state next : State} {fate : Fate} {noted : List Diagnostic}
    (settled : Settles setting place draft key procedure state fate noted grown next) :
    grown.methods = draft.methods ++ fate.method?.toList ∧ grown.children = draft.children := by
  cases settled with
  | excluded _ | failed _ _ _ _ => exact ⟨(List.append_nil _).symm, rfl⟩
  | offered _ _ _ => exact ⟨rfl, rfl⟩

/-- What is reported under the path of a procedure comes after what typing reports about parts of its
models. -/
theorem Settles.diagnostics_eq {place : Place} {draft grown : ClassDraft} {key : String}
    {procedure : Procedure} {state next : State} {fate : Fate} {noted : List Diagnostic}
    (settled : Settles setting place draft key procedure state fate noted grown next) :
    next.typing.diagnostics =
      state.typing.diagnostics ++ (noted ++ fate.reports (place.path key)) := by
  cases settled with
  | excluded _ => exact (List.append_nil _).symm
  | failed _ _ _ same =>
      rw [← List.append_assoc, ← same]
      rfl
  | offered _ _ same =>
      rw [← List.append_assoc, ← same]
      exact (List.append_nil _).symm

/-- A run over entries that comes to its end is derived. -/
theorem addEntries_follows {place : Place} {draft grown : ClassDraft}
    {entries : List (String × Entry)} {state next : State}
    (run : addEntries setting place draft entries state = .ok grown next) :
    ∃ log, Assembles setting place draft entries state log grown next := by
  induction place, draft, entries using addEntries.induct generalizing state grown next with
  | case1 place draft =>
      rw [addEntries] at run
      cases run
      exact ⟨[], .done⟩
  | case2 place draft key procedure more ih =>
      rw [addEntries] at run
      obtain ⟨between, middle, first, run⟩ := bind_ok run
      obtain ⟨_, _, _, _, ran, settled⟩ | ⟨_, _, _, _, _, failed⟩ :=
        addProcedure_follows setting place draft key procedure state
      · cases ran.symm.trans first
        obtain ⟨log, rest⟩ := ih between run
        exact ⟨_, .procedure settled rest⟩
      · cases failed.symm.trans first
  | case3 place draft key entries more below ih =>
      rw [addEntries] at run
      obtain ⟨child, middle, first, run⟩ := bind_ok run
      obtain ⟨inner, inside⟩ := below first
      obtain ⟨log, rest⟩ := ih child run
      exact ⟨inner ++ log, .space inside rest⟩

/-- The definitions that are declared at the root. -/
def wantedDefinitions (settings : Settings) (definitions : Table String NodeId) :
    Table String NodeId :=
  match settings.models with
  | .all => definitions
  | .referenced => []

/-- What declaring one definition does to the root class, and what can be chained, declaring several of
them does. -/
theorem addDefinitions_chain {R : ClassDraft → State → ClassDraft → State → Prop}
    (refl : ∀ draft state, R draft state draft state)
    (trans : ∀ {a b c : ClassDraft} {s t u : State}, R a s b t → R b t c u → R a s c u)
    (step : ∀ {draft key id state grown next}, Defines setting draft key id state grown next →
      R draft state grown next)
    {definitions : List (String × NodeId)} {draft grown : ClassDraft} {state next : State}
    (run : definitions.foldlM (addDefinition setting) draft state = .ok grown next) :
    R draft state grown next := by
  induction definitions generalizing draft state with
  | nil =>
      cases run
      exact refl _ _
  | cons definition more ih =>
      rw [List.foldlM_cons] at run
      obtain ⟨between, middle, first, run⟩ := bind_ok run
      obtain ⟨_, _, ran, defines⟩ | ⟨_, _, _, _, _, failed⟩ :=
        addDefinition_follows setting draft definition.1 definition.2 state
      · cases ran.symm.trans first
        exact trans (step defines) (ih run)
      · cases failed.symm.trans first

/-- Definitions bring no methods and no classes to the root. -/
theorem addDefinitions_members {definitions : List (String × NodeId)} {draft grown : ClassDraft}
    {state next : State}
    (run : definitions.foldlM (addDefinition setting) draft state = .ok grown next) :
    grown.methods = draft.methods ∧ grown.children = draft.children := by
  refine addDefinitions_chain (R := fun draft _ grown _ =>
    grown.methods = draft.methods ∧ grown.children = draft.children) ?_ ?_ ?_ run
  · exact fun _ _ => ⟨rfl, rfl⟩
  · exact fun first second => ⟨second.1.trans first.1, second.2.trans first.2⟩
  · intro _ _ _ _ _ _ defines
    cases defines with
    | skipped _ | failed _ _ _ | refused _ _ _ | declared _ _ _ => exact ⟨rfl, rfl⟩

theorem assembleRoot_eq (setting : Setting) (router : String) (tree : Route.Tree)
    (definitions : Table String NodeId) :
    assembleRoot setting router tree definitions = (do
      let start ← (wantedDefinitions setting.settings definitions).foldlM (addDefinition setting)
        { scope := {} }
      let root ← addEntries setting ⟨[], [typeName router]⟩ start tree
      return root.toClass (typeName router) router) := by
  unfold assembleRoot wantedDefinitions
  cases setting.settings.models <;> rfl

/-- The root class is filled first with the definitions and then with the entries of the tree. -/
theorem assembleRoot_follows {router : String} {tree : Route.Tree}
    {definitions : Table String NodeId} {root : RouteClass} {state next : State}
    (run : assembleRoot setting router tree definitions state = .ok root next) :
    ∃ start middle log final,
      (wantedDefinitions setting.settings definitions).foldlM (addDefinition setting)
        { scope := {} } state = .ok start middle ∧
      Assembles setting ⟨[], [typeName router]⟩ start tree middle log final next ∧
      root = final.toClass (typeName router) router := by
  rw [assembleRoot_eq] at run
  obtain ⟨start, middle, defined, run⟩ := bind_ok run
  obtain ⟨final, last, entered, run⟩ := bind_ok run
  obtain ⟨log, assembled⟩ := addEntries_follows entered
  cases run
  exact ⟨start, middle, log, final, defined, assembled, rfl⟩

/-- A client has what the run has assembled and reported. -/
theorem assemble_run {settings : Settings} {graph : Schema.Graph} {router : String}
    {tree : Route.Tree} {definitions : Table String NodeId} {client : Client}
    (assembled : assemble settings graph router tree definitions = .ok client) :
    ∃ last, assembleRoot ⟨graph, settings⟩ router tree definitions {} = .ok client.root last ∧
      client.globals = last.typing.globals ∧ client.diagnostics = last.typing.diagnostics := by
  unfold assemble at assembled
  split at assembled
  · cases assembled
  · next root last run =>
    cases assembled
    exact ⟨last, run, rfl, rfl⟩

theorem assemble_of_run {settings : Settings} {graph : Schema.Graph} {router : String}
    {tree : Route.Tree} {definitions : Table String NodeId} {root : RouteClass} {last : State}
    (run : assembleRoot ⟨graph, settings⟩ router tree definitions {} = .ok root last) :
    ∃ client, assemble settings graph router tree definitions = .ok client ∧ client.root = root ∧
      client.globals = last.typing.globals ∧ client.diagnostics = last.typing.diagnostics := by
  unfold assemble
  rw [run]
  exact ⟨_, rfl, rfl, rfl, rfl⟩

theorem assemble_follows {settings : Settings} {graph : Schema.Graph} {router : String}
    {tree : Route.Tree} {definitions : Table String NodeId} {client : Client}
    (assembled : assemble settings graph router tree definitions = .ok client) :
    ∃ start middle log final last,
      (wantedDefinitions settings definitions).foldlM (addDefinition ⟨graph, settings⟩)
        { scope := {} } {} = .ok start middle ∧
      Assembles ⟨graph, settings⟩ ⟨[], [typeName router]⟩ start tree middle log final last ∧
      client.root = final.toClass (typeName router) router ∧
      client.globals = last.typing.globals ∧
      client.diagnostics = last.typing.diagnostics := by
  obtain ⟨last, run, globals, diagnostics⟩ := assemble_run assembled
  obtain ⟨start, middle, log, final, defined, filled, same⟩ := assembleRoot_follows run
  exact ⟨start, middle, log, final, last, defined, filled, same, globals, diagnostics⟩

end

end RouterClient.Client
