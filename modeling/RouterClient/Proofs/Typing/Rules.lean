import RouterClient.Typing.Node

/-! # The rules of typing

Typing written down rule by rule, beside the functions that carry it out. A derivation also keeps
what becomes of the nodes that are to be declared for the whole file.
-/

namespace RouterClient.Model.GlobalModels

open Schema (NodeId)

variable {δ : Type} (globals : GlobalModels δ) (id : NodeId) {other : NodeId} (proposal : String)

/-- The global models once a node has been named and can be mentioned by its name. -/
def reserveOwn : GlobalModels δ :=
  (globals.resolveName id proposal).2.reserve id (globals.resolveName id proposal).1

@[simp] theorem models_reserveOwn : (globals.reserveOwn id proposal).models = globals.models :=
  models_resolveName globals id proposal

theorem nameOf_reserveOwn :
    (globals.reserveOwn id proposal).nameOf other =
      (globals.resolveName id proposal).2.nameOf other :=
  rfl

theorem nameOf_reserveOwn_self :
    (globals.reserveOwn id proposal).nameOf id = some (globals.resolveName id proposal).1 :=
  (nameOf_resolveName globals id id proposal).trans (if_pos rfl)

theorem globalName_reserveOwn_self :
    (globals.reserveOwn id proposal).globalName id = some (globals.resolveName id proposal).1 :=
  (globalName_reserve _ id id _).trans (if_pos rfl)

theorem globalName_reserveOwn_of_ne (different : id ≠ other) :
    (globals.reserveOwn id proposal).globalName other = globals.globalName other := by
  rw [reserveOwn, globalName_reserve, if_neg different, globalName_resolveName]

end RouterClient.Model.GlobalModels

namespace RouterClient.Typing

open Model (Scope)
open Schema (NodeId Graph Kind Arrangement Literal)
open Code (Declaration)

/-- What becomes of a node that is to be declared for the whole file. -/
inductive Event where
  /-- Its declaration is accepted. -/
  | declared (id : NodeId) (definition : Declaration)
  /-- It stands for no value, or its name is taken, and it cannot be mentioned any more. -/
  | withdrawn (id : NodeId)

/-- What typing a node comes to. -/
abbrev Verdict := Except Failure (Option Typed)

/-- A relation between a node, a site, the state before, the events on the way, the verdict and the
state after. -/
abbrev Judgement := NodeId → Site → State → List Event → Verdict → State → Prop

namespace State

/-- The state with another scope. -/
def within (state : State) (scope : Scope) : State :=
  { state with scope }

/-- The state with other global models. -/
def withGlobals (state : State) (globals : Model.GlobalModels Declaration) : State :=
  { state with globals }

/-- The state after a failure has been reported, if there is one. -/
def note (state : State) (location : String) : Option Failure → State
  | none => state
  | some failure =>
    { state with diagnostics := state.diagnostics ++ [⟨location, failure⟩] }

/-- The name of a node, which is `proposal` if the node has none so far. -/
def nameFor (state : State) (id : NodeId) (proposal : String) : String :=
  (state.globals.resolveName id proposal).1

/-- The state after a node has been named. -/
def named (state : State) (id : NodeId) (proposal : String) : State :=
  state.withGlobals (state.globals.resolveName id proposal).2

/-- The state inside one more typing step. -/
def enter (state : State) : State :=
  { state with callDepth := state.callDepth + 1 }

/-- The state after a typing step. -/
def leave (state : State) : State :=
  { state with callDepth := state.callDepth - 1 }

/-- The state in which a node that has been named is declared for the whole file. -/
def reserved (state : State) (id : NodeId) (proposal : String) : State :=
  state.withGlobals (state.globals.reserveOwn id proposal)

/-- The state in which a node that has been named is declared as a local model. -/
def shown (state : State) (id : NodeId) (proposal : String) : State :=
  (state.named id proposal).within (state.scope.insert id (state.nameFor id proposal))

@[simp] theorem within_scope (state : State) (scope : Scope) :
    (state.within scope).scope = scope := rfl

@[simp] theorem within_globals (state : State) (scope : Scope) :
    (state.within scope).globals = state.globals := rfl

@[simp] theorem within_callDepth (state : State) (scope : Scope) :
    (state.within scope).callDepth = state.callDepth := rfl

@[simp] theorem note_scope (state : State) (location : String) (failure : Option Failure) :
    (state.note location failure).scope = state.scope := by
  cases failure <;> rfl

@[simp] theorem note_globals (state : State) (location : String) (failure : Option Failure) :
    (state.note location failure).globals = state.globals := by
  cases failure <;> rfl

@[simp] theorem note_callDepth (state : State) (location : String) (failure : Option Failure) :
    (state.note location failure).callDepth = state.callDepth := by
  cases failure <;> rfl

@[simp] theorem named_globalName (state : State) (id other : NodeId) (proposal : String) :
    (state.named id proposal).globals.globalName other = state.globals.globalName other :=
  Model.GlobalModels.globalName_resolveName state.globals id other proposal

@[simp] theorem named_scope (state : State) (id : NodeId) (proposal : String) :
    (state.named id proposal).scope = state.scope := rfl

@[simp] theorem named_models (state : State) (id : NodeId) (proposal : String) :
    (state.named id proposal).globals.models = state.globals.models :=
  Model.GlobalModels.models_resolveName state.globals id proposal

theorem named_nameOf (state : State) (id : NodeId) (proposal : String) :
    (state.named id proposal).globals.nameOf id = some (state.nameFor id proposal) :=
  (Model.GlobalModels.nameOf_resolveName state.globals id id proposal).trans (if_pos rfl)

@[simp] theorem reserved_models (state : State) (id : NodeId) (proposal : String) :
    (state.reserved id proposal).globals.models = state.globals.models :=
  state.globals.models_reserveOwn id proposal

@[simp] theorem shown_models (state : State) (id : NodeId) (proposal : String) :
    (state.shown id proposal).globals.models = state.globals.models :=
  state.named_models id proposal

@[simp] theorem reserved_scope (state : State) (id : NodeId) (proposal : String) :
    (state.reserved id proposal).scope = state.scope := rfl

@[simp] theorem shown_scope (state : State) (id : NodeId) (proposal : String) :
    (state.shown id proposal).scope = state.scope.insert id (state.nameFor id proposal) := rfl

end State

/-- A nominal node that cannot be mentioned yet. -/
structure Undeclared (graph : Graph) (id : NodeId) (state : State) : Prop where
  nominal : (graph.kind id).isNominal = true
  unpromoted : state.globals.globalName id = none
  hidden : state.scope.lookup id = none

/-- The members of a declaration, typed one after the other on copies of `scope`. -/
inductive Members {δ : Type} (J : Judgement) (scope : Scope) :
    List (Member δ) → δ → State → List Event → δ → State → Prop where
  | nil {draft state} : Members J scope [] draft state [] draft state
  | cons {member more draft state events verdict next events' final last} :
      J member.id member.site (state.within scope) events verdict next →
      Members J scope more (member.settle draft verdict).1
        ((next.within state.scope).note member.location (member.settle draft verdict).2)
        events' final last →
      Members J scope (member :: more) draft state (events ++ events') final last

section

variable (graph : Graph) (settings : Settings) (J : Judgement)

/-- The declaration of a nominal node under a name. -/
inductive Declares (id : NodeId) (name : String) (description : Option String) (scope : Scope)
    (depth : Nat) : State → List Event → Option Declaration → State → Prop where
  | record {fields state events draft next} :
      graph.kind id = .object fields →
      Members J scope (fields.map (fieldMember graph settings name depth)) {} state events
        draft next →
      Declares id name description scope depth state events
        (some (draft.toDeclaration settings name description)) next
  | enumeration {values state} :
      graph.kind id = .enumeration values →
      Declares id name description scope depth state []
        (declareEnum settings name description values) state
  | literal {value state} :
      graph.kind id = .literal value →
      Declares id name description scope depth state []
        (declareEnum settings name description [value]) state
  | union {options state events draft next} :
      graph.kind id = .union options →
      Members J scope (options.zipIdx.map (optionMember graph name depth)) {} state events
        draft next →
      Declares id name description scope depth state events
        (draft.toDeclaration? settings name description) next

/-- One typing step, given how the nodes that the node refers to are typed. -/
inductive Step : Judgement where
  | primitive {id site state p} :
      graph.kind id = .primitive p →
      Step id site state [] (.ok (some { type := .primitive p })) state
  | empty {id site state} :
      graph.kind id = .empty → Step id site state [] (.ok none) state
  | unsupported {id site state typeName} :
      graph.kind id = .unsupported typeName →
      Step id site state [] (.error (.unsupportedSchema typeName)) state
  | endless {id site state inner} :
      graph.kind id = .optional inner ∨ graph.kind id = .nullable inner →
      unwrap? graph graph.size id site.declared = none →
      Step id site state [] (.error (.recursionLimit graph.size)) state
  | optional {id site state inner base declared events verdict next} :
      graph.kind id = .optional inner ∨ graph.kind id = .nullable inner →
      unwrap? graph graph.size id site.declared = some (base, declared) →
      J base (site.descend true declared) state events verdict next →
      Step id site state events (verdict.map (Option.map (Typed.mark site.marked))) next
  | collection {id site state arrangement element events verdict next} :
      graph.kind id = .collection arrangement element →
      J element (site.descend false (declaredBy graph id site.declared)) state events verdict next →
      Step id site state events (verdict.map (Option.map (Typed.collect arrangement))) next
  | transform {id site state inner events verdict next} :
      graph.kind id = .transform inner →
      J inner (site.descend site.marked (declaredBy graph id site.declared)) state events verdict
        next →
      Step id site state events verdict next
  | promoted {id site state known} :
      (graph.kind id).isNominal = true →
      state.globals.globalName id = some known →
      Step id site state [] (.ok (some { type := .model id known .global }))
        (state.named id (proposedName graph id site))
  | visible {id site state known} :
      (graph.kind id).isNominal = true →
      state.globals.globalName id = none →
      state.scope.lookup id = some known →
      Step id site state [] (.ok (some { type := .model id known .scope }))
        (state.named id (proposedName graph id site))
  | accepted {id site state name events definition next globals} :
      Undeclared graph id state →
      isGlobal settings (graph.label id) (site.declared.map graph.label) site.depth = true →
      name = state.nameFor id (proposedName graph id site) →
      Declares graph settings J id name (describedAs graph id site) (Scope.insert {} id name)
        site.depth (state.reserved id (proposedName graph id site)) events (some definition) next →
      next.globals.register id name definition = (.ok (), globals) →
      Step id site state (events ++ [.declared id definition])
        (.ok (some { type := .model id name .global })) (next.withGlobals globals)
  | collided {id site state name events definition next failure globals} :
      Undeclared graph id state →
      isGlobal settings (graph.label id) (site.declared.map graph.label) site.depth = true →
      name = state.nameFor id (proposedName graph id site) →
      Declares graph settings J id name (describedAs graph id site) (Scope.insert {} id name)
        site.depth (state.reserved id (proposedName graph id site)) events (some definition) next →
      next.globals.register id name definition = (.error failure, globals) →
      Step id site state (events ++ [.withdrawn id]) (.error failure) (next.withGlobals globals)
  | void {id site state name events next} :
      Undeclared graph id state →
      isGlobal settings (graph.label id) (site.declared.map graph.label) site.depth = true →
      name = state.nameFor id (proposedName graph id site) →
      Declares graph settings J id name (describedAs graph id site) (Scope.insert {} id name)
        site.depth (state.reserved id (proposedName graph id site)) events none next →
      Step id site state (events ++ [.withdrawn id]) (.ok none)
        (next.withGlobals (next.globals.abandon id))
  | nested {id site state name events definition next} :
      Undeclared graph id state →
      isGlobal settings (graph.label id) (site.declared.map graph.label) site.depth = false →
      name = state.nameFor id (proposedName graph id site) →
      Declares graph settings J id name (describedAs graph id site) (state.scope.insert id name)
        site.depth (state.shown id (proposedName graph id site)) events (some definition) next →
      Step id site state events
        (.ok (some { type := .model id name .scope, model := some ⟨id, name, definition⟩ })) next
  | hollow {id site state name events next} :
      Undeclared graph id state →
      isGlobal settings (graph.label id) (site.declared.map graph.label) site.depth = false →
      name = state.nameFor id (proposedName graph id site) →
      Declares graph settings J id name (describedAs graph id site) (state.scope.insert id name)
        site.depth (state.shown id (proposedName graph id site)) events none next →
      Step id site state events (.ok none) (next.within (next.scope.remove id))

/-- A typing step that is taken unless too many steps stand around it. -/
inductive Guarded : Judgement where
  | limit {id site state} :
      maxDepth ≤ state.callDepth →
      Guarded id site state [] (.error (.recursionLimit maxDepth)) state
  | inside {id site state events verdict next} :
      state.callDepth < maxDepth →
      Step graph settings J id site state.enter events verdict next →
      Guarded id site state events verdict next.leave

end

/-- What can be derived with a budget of typing steps one inside the other. -/
def Derives (graph : Graph) (settings : Settings) : (budget : Nat) → Judgement
  | 0 => fun _ _ state events verdict next =>
    events = [] ∧ verdict = .error (.recursionLimit maxDepth) ∧ next = state
  | budget + 1 => Guarded graph settings (Derives graph settings budget)

variable {graph : Graph} {settings : Settings}

/-- What holds at the limit, passes from the nodes below to a node, and does not depend on the
steps that are under way, holds of every derivation. -/
theorem Derives.induction {P : Judgement}
    (limit : ∀ {id site state}, P id site state [] (.error (.recursionLimit maxDepth)) state)
    (leave : ∀ {id site state events verdict next},
      P id site state.enter events verdict next → P id site state events verdict next.leave)
    (step : ∀ {budget id site state events verdict next},
      (∀ {id site state events verdict next},
        Derives graph settings budget id site state events verdict next →
        P id site state events verdict next) →
      Step graph settings (Derives graph settings budget) id site state events verdict next →
      P id site state events verdict next)
    {budget id site state events verdict next}
    (derived : Derives graph settings budget id site state events verdict next) :
    P id site state events verdict next := by
  induction budget generalizing id site state events verdict next with
  | zero =>
      obtain ⟨rfl, rfl, rfl⟩ := derived
      exact limit
  | succ budget ih =>
      cases derived with
      | limit _ => exact limit
      | inside _ taken => exact leave (step ih taken)

/-- What typing a member does to the state, and what can be chained, all members do. -/
theorem Members.chain {δ : Type} {J : Judgement} {scope : Scope} {members : List (Member δ)}
    {draft final : δ} {state last : State} {events : List Event}
    {R : State → List Event → State → Prop}
    (refl : ∀ state, R state [] state)
    (trans : ∀ {a b c first second}, R a first b → R b second c → R a (first ++ second) c)
    (member : ∀ {id site state events verdict next} location failure,
      J id site (state.within scope) events verdict next →
      R state events ((next.within state.scope).note location failure))
    (runs : Members J scope members draft state events final last) : R state events last := by
  induction runs with
  | nil => exact refl _
  | cons derived _ ih => exact trans (member _ _ derived) ih

/-- A declaration does to the state what its members do. -/
theorem Declares.chain {J : Judgement} {id : NodeId} {name : String} {description : Option String}
    {scope : Scope} {depth : Nat} {state next : State} {events : List Event}
    {definition : Option Declaration} {R : State → List Event → State → Prop}
    (refl : ∀ state, R state [] state)
    (trans : ∀ {a b c first second}, R a first b → R b second c → R a (first ++ second) c)
    (member : ∀ {id site state events verdict next} location failure,
      J id site (state.within scope) events verdict next →
      R state events ((next.within state.scope).note location failure))
    (declares : Declares graph settings J id name description scope depth state events definition
      next) :
    R state events next := by
  cases declares with
  | record _ runs => exact runs.chain refl trans member
  | enumeration _ => exact refl state
  | literal _ => exact refl state
  | union _ runs => exact runs.chain refl trans member

theorem Declares.callDepth_eq {J : Judgement} {id : NodeId} {name : String}
    {description : Option String} {scope : Scope} {depth : Nat} {state next : State}
    {events : List Event} {definition : Option Declaration}
    (below : ∀ {id site state events verdict next}, J id site state events verdict next →
      next.callDepth = state.callDepth)
    (declares : Declares graph settings J id name description scope depth state events definition
      next) :
    next.callDepth = state.callDepth := by
  apply declares.chain (R := fun before _ after => after.callDepth = before.callDepth)
  · intro state
    rfl
  · intro _ _ _ _ _ first second
    exact second.trans first
  · intro _ _ _ _ _ _ location failure derived
    rw [State.note_callDepth]
    have kept := below derived
    exact kept

/-- Every typing step that is entered is left. -/
theorem Derives.callDepth_eq {budget : Nat} {id : NodeId} {site : Site} {state next : State}
    {events : List Event} {verdict : Verdict}
    (derived : Derives graph settings budget id site state events verdict next) :
    next.callDepth = state.callDepth := by
  refine Derives.induction (P := fun _ _ state _ _ next => next.callDepth = state.callDepth)
    rfl (fun same => Nat.sub_eq_of_eq_add same) ?_ derived
  intro budget _ _ state _ _ next below step
  cases step with
  | primitive _ | empty _ | unsupported _ | endless _ _ | promoted _ _ | visible _ _ _ => rfl
  | optional _ _ inner => exact below inner
  | collection _ inner => exact below inner
  | transform _ inner => exact below inner
  | accepted _ _ _ declares _ | collided _ _ _ declares _ | void _ _ _ declares
  | nested _ _ _ declares | hollow _ _ _ declares =>
      have kept := declares.callDepth_eq below
      exact kept

end RouterClient.Typing
