import RouterClient.Proofs.Typing.ScopeEffect

/-! # Global models over whole runs

A typing call only adds to the global models.  It may reserve a name for a node and go on to other
nodes before it knows whether the node's own declaration is accepted, so what a call does is stated
of the models before and after it: names and declarations are kept, and a node that has become
mentionable by a global name has a declaration under that name.
-/

namespace RouterClient.Typing

open Model (GlobalModel GlobalModels Scope)
open Schema (NodeId Graph Kind)
open Code (Declaration)

/-- Nodes keep their names. -/
def NamesKept (before after : GlobalModels Declaration) : Prop :=
  ∀ id name, before.nameOf id = some name → after.nameOf id = some name

/-- A nominal node that has been named and declared for the whole file. -/
structure Settled (graph : Graph) (globals : GlobalModels Declaration) (id : NodeId)
    (name : String) : Prop where
  nominal : (graph.kind id).isNominal = true
  named : globals.nameOf id = some name
  declared : globals.containsName name = true

/-- What a typing call does to the global models. -/
structure Evolves (graph : Graph) (before after : GlobalModels Declaration) : Prop where
  names : NamesKept before after
  models : before.models <+: after.models
  distinct : before.models.keys.Nodup → after.models.keys.Nodup
  promoted : ∀ id name, before.globalName id = some name → after.globalName id = some name
  settled : ∀ id name, after.globalName id = some name →
    before.globalName id = some name ∨ Settled graph after id name
  owned : ∀ entry ∈ after.models, entry ∈ before.models ∨
    before.globalName entry.2.owner = none ∧ after.globalName entry.2.owner = some entry.1

section

variable {graph : Graph} {before middle after : GlobalModels Declaration} {id : NodeId}
  {name proposal : String}

theorem Settled.mono (settled : Settled graph before id name) (names : NamesKept before after)
    (models : before.models <+: after.models) : Settled graph after id name := by
  obtain ⟨more, models⟩ := models
  refine ⟨settled.nominal, names id name settled.named, ?_⟩
  have declared := settled.declared
  simp only [GlobalModels.containsName, Table.contains] at declared ⊢
  rw [← models, Table.get?_append, Option.isSome_or, declared, Bool.true_or]

namespace Evolves

theorem refl (graph : Graph) (globals : GlobalModels Declaration) :
    Evolves graph globals globals where
  names _ _ known := known
  models := List.prefix_rfl
  distinct nodup := nodup
  promoted _ _ known := known
  settled _ _ known := .inl known
  owned _ member := .inl member

theorem trans (first : Evolves graph before middle) (second : Evolves graph middle after) :
    Evolves graph before after where
  names id name known := second.names id name (first.names id name known)
  models := first.models.trans second.models
  distinct nodup := second.distinct (first.distinct nodup)
  promoted id name known := second.promoted id name (first.promoted id name known)
  settled id name known := by
    rcases second.settled id name known with known | settled
    · rcases first.settled id name known with known | settled
      · exact .inl known
      · exact .inr (settled.mono second.names second.models)
    · exact .inr settled
  owned entry member := by
    rcases second.owned entry member with member | ⟨free, owned⟩
    · rcases first.owned entry member with member | ⟨free, owned⟩
      · exact .inl member
      · exact .inr ⟨free, second.promoted _ _ owned⟩
    · refine .inr ⟨?_, owned⟩
      cases known : before.globalName entry.2.owner with
      | none => rfl
      | some name =>
          have kept := first.promoted _ _ known
          rw [free] at kept
          cases kept

theorem resolveName (graph : Graph) (globals : GlobalModels Declaration) (id : NodeId)
    (proposal : String) : Evolves graph globals (globals.resolveName id proposal).2 where
  names other name known := by
    rw [GlobalModels.nameOf_resolveName]
    by_cases same : id = other
    · subst same
      rw [if_pos rfl, GlobalModels.resolveName_of_nameOf known]
    · rw [if_neg same]
      exact known
  models := by simp only [GlobalModels.models_resolveName, List.prefix_rfl]
  distinct nodup := by
    rw [GlobalModels.models_resolveName]
    exact nodup
  promoted other name known := by
    rw [GlobalModels.globalName_resolveName]
    exact known
  settled other name known := by
    rw [GlobalModels.globalName_resolveName] at known
    exact .inl known
  owned entry member := by
    rw [GlobalModels.models_resolveName] at member
    exact .inl member

/-- A node is reserved, other nodes are typed, and the reservation is either undone or settled.
Nothing of the reservation is left. -/
theorem close {inner closed : GlobalModels Declaration} (fresh : before.globalName id = none)
    (body : Evolves graph (before.reserveOwn id proposal) inner)
    (names : ∀ other, closed.nameOf other = inner.nameOf other)
    (models : inner.models <+: closed.models)
    (distinct : inner.models.keys.Nodup → closed.models.keys.Nodup)
    (others : ∀ other, id ≠ other → closed.globalName other = inner.globalName other)
    (own : ∀ name, closed.globalName id = some name → Settled graph closed id name)
    (owned : ∀ entry ∈ closed.models, entry ∈ inner.models ∨
      entry.2.owner = id ∧ closed.globalName id = some entry.1) :
    Evolves graph before closed where
  names other name known := by
    rw [names]
    exact body.names other name ((resolveName graph before id proposal).names other name known)
  models := by
    have grown := body.models.trans models
    rwa [GlobalModels.models_reserveOwn] at grown
  distinct nodup := by
    apply distinct
    apply body.distinct
    rwa [GlobalModels.models_reserveOwn]
  promoted other name known := by
    have different : id ≠ other := by
      intro same
      rw [← same, fresh] at known
      cases known
    rw [others other different]
    apply body.promoted
    rwa [GlobalModels.globalName_reserveOwn_of_ne _ _ _ different]
  settled other name known := by
    by_cases same : id = other
    · subst same
      exact .inr (own name known)
    · rw [others other same] at known
      rcases body.settled other name known with known | settled
      · rw [GlobalModels.globalName_reserveOwn_of_ne _ _ _ same] at known
        exact .inl known
      · exact .inr (settled.mono (fun other name known => (names other).trans known) models)
  owned entry member := by
    rcases owned entry member with member | ⟨rfl, found⟩
    · rcases body.owned entry member with member | ⟨free, found⟩
      · rw [GlobalModels.models_reserveOwn] at member
        exact .inl member
      · have different : id ≠ entry.2.owner := by
          intro same
          rw [← same, GlobalModels.globalName_reserveOwn_self] at free
          cases free
        rw [GlobalModels.globalName_reserveOwn_of_ne _ _ _ different] at free
        exact .inr ⟨free, (others _ different).trans found⟩
    · exact .inr ⟨fresh, found⟩

/-- A reservation that is undone. -/
theorem abandon {inner : GlobalModels Declaration} (fresh : before.globalName id = none)
    (body : Evolves graph (before.reserveOwn id proposal) inner) :
    Evolves graph before (inner.abandon id) := by
  refine close fresh body (fun _ => rfl) List.prefix_rfl (fun nodup => nodup) ?_ ?_ ?_
  · intro other different
    exact GlobalModels.globalName_abandon_of_ne inner different
  · intro name known
    rw [GlobalModels.globalName_abandon_self] at known
    cases known
  · intro entry member
    exact .inl member

theorem reserved_nameOf {inner : GlobalModels Declaration}
    (body : Evolves graph (before.reserveOwn id proposal) inner) :
    inner.nameOf id = some (before.resolveName id proposal).1 :=
  body.names id _ (before.nameOf_reserveOwn_self id proposal)

/-- A reservation that becomes a declaration. -/
theorem register {inner closed : GlobalModels Declaration} {definition : Declaration}
    (nominal : (graph.kind id).isNominal = true) (fresh : before.globalName id = none)
    (body : Evolves graph (before.reserveOwn id proposal) inner)
    (registered : inner.register id (before.resolveName id proposal).1 definition =
      (.ok (), closed)) :
    Evolves graph before closed := by
  have accepts := GlobalModels.accepts_of_register registered
  apply close fresh body accepts.names accepts.models accepts.distinct
  · intro other different
    exact accepts.others different
  · intro name known
    obtain rfl := Option.some.inj (accepts.own.symm.trans known)
    obtain ⟨model, found, _⟩ := accepts.found
    exact ⟨nominal, (accepts.names id).trans body.reserved_nameOf,
      Option.isSome_of_eq_some found⟩
  · intro entry member
    rcases accepts.added entry member with member | rfl
    · exact .inl member
    · exact .inr ⟨rfl, accepts.own⟩

end Evolves

/-- Global models between calls, or while names are reserved: a node that can be mentioned by a
global name is named so, and whatever is declared can be mentioned. -/
structure Consistent (globals : GlobalModels Declaration) : Prop where
  named : ∀ id name, globals.globalName id = some name → globals.nameOf id = some name
  owned : ∀ entry ∈ globals.models, globals.globalName entry.2.owner = some entry.1

theorem Consistent.empty : Consistent {} where
  named _ _ known := by cases known
  owned _ member := by cases member

theorem Evolves.consistent (evolves : Evolves graph before after) (consistent : Consistent before) :
    Consistent after where
  named id name known := by
    rcases evolves.settled id name known with known | settled
    · exact evolves.names id name (consistent.named id name known)
    · exact settled.named
  owned entry member := by
    rcases evolves.owned entry member with member | ⟨_, owned⟩
    · exact evolves.promoted _ _ (consistent.owned entry member)
    · exact owned

theorem Consistent.reserveOwn (consistent : Consistent before) (fresh : before.globalName id = none)
    (proposal : String) : Consistent (before.reserveOwn id proposal) where
  named other name known := by
    by_cases same : id = other
    · subst same
      rw [GlobalModels.globalName_reserveOwn_self] at known
      rw [GlobalModels.nameOf_reserveOwn_self, known]
    · rw [GlobalModels.globalName_reserveOwn_of_ne _ _ _ same] at known
      rw [GlobalModels.nameOf_reserveOwn, GlobalModels.nameOf_resolveName, if_neg same]
      exact consistent.named other name known
  owned entry member := by
    rw [GlobalModels.models_reserveOwn] at member
    have owned := consistent.owned entry member
    have different : id ≠ entry.2.owner := by
      intro same
      rw [← same, fresh] at owned
      cases owned
    rw [GlobalModels.globalName_reserveOwn_of_ne _ _ _ different]
    exact owned

end

theorem Declares.evolves {graph : Graph} {settings : Settings} {J : Judgement} {id : NodeId}
    {name : String} {description : Option String} {scope : Scope} {depth : Nat}
    {state next : State} {events : List Event} {definition : Option Declaration}
    (below : ∀ {id site state events verdict next}, J id site state events verdict next →
      Evolves graph state.globals next.globals)
    (declares : Declares graph settings J id name description scope depth state events definition
      next) :
    Evolves graph state.globals next.globals := by
  refine declares.chain (R := fun before _ after => Evolves graph before.globals after.globals)
    ?_ ?_ ?_
  · intro state
    exact .refl graph state.globals
  · intro _ _ _ _ _ first second
    exact first.trans second
  · intro _ _ _ _ _ _ location failure derived
    rw [State.note_globals]
    have kept := below derived
    exact kept

/-- What typing does to the global models, whatever it comes to. -/
theorem Derives.evolves {graph : Graph} {settings : Settings} {budget : Nat} {id : NodeId}
    {site : Site} {state next : State} {events : List Event} {verdict : Verdict}
    (derived : Derives graph settings budget id site state events verdict next) :
    Evolves graph state.globals next.globals := by
  refine Derives.induction (P := fun _ _ state _ _ next =>
    Evolves graph state.globals next.globals) (.refl graph _) (fun evolves => evolves) ?_ derived
  intro budget _ _ state _ _ _ below step
  cases step with
  | primitive _ | empty _ | unsupported _ | endless _ _ => exact .refl graph _
  | optional _ _ inner => exact below inner
  | collection _ inner => exact below inner
  | transform _ inner => exact below inner
  | promoted _ _ | visible _ _ _ => exact .resolveName graph _ _ _
  | accepted fresh _ same declares registered =>
      subst same
      exact .register fresh.nominal fresh.unpromoted (declares.evolves below) registered
  | collided fresh _ _ declares registered =>
      -- A refused declaration undoes the reservation by itself.
      obtain ⟨_, rfl⟩ := GlobalModels.register_error registered
      exact .abandon fresh.unpromoted (declares.evolves below)
  | void fresh _ _ declares => exact .abandon fresh.unpromoted (declares.evolves below)
  | nested _ _ _ declares | hollow _ _ _ declares =>
      exact (Evolves.resolveName graph _ _ _).trans (declares.evolves below)

/-- A request for the type of a node. -/
structure Call where
  id : NodeId
  position : Position

/-- The state that a step leaves behind, whether it succeeds or not. -/
def stateAfter {α : Type} (step : TypingM α) (state : State) : State :=
  match step state with
  | .ok _ next | .error _ next => next

section

variable (graph : Graph) (settings : Settings)

/-- The state after a call. -/
def Call.after (call : Call) (state : State) : State :=
  stateAfter (typeAt graph settings call.id call.position) state

/-- The state after some calls, when nothing was typed before them. -/
def afterCalls (calls : List Call) : State :=
  calls.foldl (fun state call => call.after graph settings state) {}

/-- Calls that follow the rules one after the other, and what becomes of nodes on the way. -/
inductive Run : State → List Call → List Event → State → Prop where
  | nil {state} : Run state [] [] state
  | cons {state call events verdict next calls log last} :
      Derives graph settings maxDepth call.id call.position.toSite
        (state.within call.position.scope) events verdict next →
      Run (next.within state.scope) calls log last →
      Run state (call :: calls) (events ++ log) last

theorem typeWithin_derives (budget : Nat) (id : NodeId) (site : Site) (state : State) :
    ∃ events verdict, typeWithin graph settings budget id site state =
        ending verdict (stateAfter (typeWithin graph settings budget id site) state) ∧
      Derives graph settings budget id site state events verdict
        (stateAfter (typeWithin graph settings budget id site) state) := by
  obtain ⟨events, verdict, next, run, derived⟩ :=
    typeWithin_follows graph settings budget id site state
  have same : stateAfter (typeWithin graph settings budget id site) state = next := by
    rw [stateAfter, run]
    cases verdict <;> rfl
  rw [same]
  exact ⟨events, verdict, run, derived⟩

theorem typeAt_derives (id : NodeId) (position : Position) (state : State) :
    ∃ events verdict next,
      Derives graph settings maxDepth id position.toSite (state.within position.scope) events
        verdict next ∧
      typeAt graph settings id position state =
        ending (verdict.map fun typed => ⟨typed, next.scope⟩) (next.within state.scope) := by
  obtain ⟨events, verdict, next, run, derived⟩ := typeWithin_follows graph settings maxDepth
    id position.toSite (state.within position.scope)
  exact ⟨events, verdict, next, derived, typeAt_run run⟩

theorem Call.after_derives (call : Call) (state : State) :
    ∃ events verdict next,
      Derives graph settings maxDepth call.id call.position.toSite
        (state.within call.position.scope) events verdict next ∧
      call.after graph settings state = next.within state.scope := by
  obtain ⟨events, verdict, next, derived, run⟩ :=
    typeAt_derives graph settings call.id call.position state
  refine ⟨events, verdict, next, derived, ?_⟩
  rw [Call.after, stateAfter, run]
  cases verdict <;> rfl

theorem exists_run (calls : List Call) (state : State) :
    ∃ log, Run graph settings state calls log
      (calls.foldl (fun state call => call.after graph settings state) state) := by
  induction calls generalizing state with
  | nil => exact ⟨[], .nil⟩
  | cons call calls ih =>
      obtain ⟨events, verdict, next, derived, after⟩ := call.after_derives graph settings state
      obtain ⟨log, run⟩ := ih (next.within state.scope)
      refine ⟨events ++ log, ?_⟩
      rw [List.foldl_cons, after]
      exact .cons derived run

end

section

variable {graph : Graph} {settings : Settings} {state last : State} {calls : List Call}
  {log : List Event}

theorem Run.evolves (run : Run graph settings state calls log last) :
    Evolves graph state.globals last.globals := by
  induction run with
  | nil => exact .refl graph _
  | cons derived _ ih => exact derived.evolves.trans ih

theorem Run.callDepth_eq (run : Run graph settings state calls log last) :
    last.callDepth = state.callDepth := by
  induction run with
  | nil => rfl
  | cons derived _ ih => exact ih.trans derived.callDepth_eq

end

/-- A settled node is mentioned by its name, and nothing changes. -/
theorem typeHere_settled {graph : Graph} (settings : Settings) {id : NodeId} (site : Site)
    {state : State} {name : String} (settled : Settled graph state.globals id name)
    (promoted : state.globals.globalName id = some name) (room : state.callDepth < maxDepth) :
    typeHere graph settings id site state =
      .ok (some { type := .model id name .global }) state := by
  have unchanged : state.enter.named id (proposedName graph id site) = state.enter := by
    rw [State.named, State.withGlobals, State.enter,
      GlobalModels.resolveName_of_nameOf settled.named]
  obtain ⟨below, same⟩ : ∃ below, maxDepth = below + 1 := ⟨511, rfl⟩
  have mention : typeNode graph settings (typeWithin graph settings below) id site state.enter =
      ending (.ok (some { type := .model id name .global })) state.enter := by
    have nominal := settled.nominal
    have known : state.enter.globals.globalName id = some name := promoted
    have mentioned : typeNominal graph settings (typeWithin graph settings below) id site
        state.enter = _ := typeNominal_promoted site known
    rw [unchanged] at mentioned
    cases kind : graph.kind id with
    | object | enumeration | literal | union =>
        simp only [typeNode, kind]
        exact mentioned
    | _ => simp [kind, Kind.isNominal] at nominal
  rw [typeHere, same, typeWithin_inside below id site room]
  exact deeper_ending mention

/-- Over any calls on one state, in any scopes: every typing step that is entered is left, no name
is ever changed, global models are only appended and have distinct names, and a node that can be
mentioned by a global name stays so, is named so and has a declaration under that name.  Typing it
once more gives the mention and changes nothing. -/
theorem registry_kept (graph : Graph) (settings : Settings) (calls : List Call) (call : Call) :
    let before := afterCalls graph settings calls
    let after := afterCalls graph settings (calls ++ [call])
    after.callDepth = 0 ∧
    (∀ id name, before.globals.nameOf id = some name → after.globals.nameOf id = some name) ∧
    before.globals.models <+: after.globals.models ∧
    after.globals.models.keys.Nodup ∧
    (∀ id name, before.globals.globalName id = some name →
      after.globals.globalName id = some name) ∧
    (∀ id name, after.globals.globalName id = some name →
      after.globals.nameOf id = some name ∧ after.globals.containsName name = true) ∧
    ∀ id name, after.globals.globalName id = some name →
      ∀ site state, state.globals = after.globals → state.callDepth < maxDepth →
        typeHere graph settings id site state =
          .ok (some { type := .model id name .global }) state := by
  intro before after
  obtain ⟨log, whole⟩ := exists_run graph settings (calls ++ [call]) {}
  obtain ⟨events, verdict, next, derived, last⟩ := call.after_derives graph settings before
  have step : Evolves graph before.globals after.globals := by
    have same : after = next.within before.scope := by
      rw [← last]
      exact List.foldl_append
    rw [same]
    exact derived.evolves
  have settled (id : NodeId) (name : String)
      (promoted : after.globals.globalName id = some name) :
      Settled graph after.globals id name := by
    rcases whole.evolves.settled id name promoted with known | settled
    · cases known
    · exact settled
  refine ⟨whole.callDepth_eq, step.names, step.models, whole.evolves.distinct List.nodup_nil,
    step.promoted, ?_, ?_⟩
  · intro id name promoted
    exact ⟨(settled id name promoted).named, (settled id name promoted).declared⟩
  · intro id name promoted site state same room
    rw [← same] at settled promoted
    exact typeHere_settled settings site (settled id name promoted) promoted room

end RouterClient.Typing
