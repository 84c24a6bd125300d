import RouterClient.Proofs.Typing.Determined
import RouterClient.Proofs.Typing.Promotion
import RouterClient.Proofs.Typing.Valueless

/-! # Typing is local

Where nothing is promoted, typing a node reads and writes what is known of the nodes that it reaches, and
of no others.  Two states that agree on these nodes are taken through the same steps, and a state keeps
what it knows of every other node.
-/

namespace RouterClient.Typing

open Model (GlobalModels Scope)
open Schema (NodeId Graph)
open Code (Declaration)

/-! ## Two states -/

/-- Two states that know the same of the nodes of a part, and have promoted none of them. -/
structure Alike (part : NodeId → Prop) (a b : State) : Prop where
  named : ∀ id, part id → a.globals.nameOf id = b.globals.nameOf id
  visible : ∀ id, part id → a.scope.lookup id = b.scope.lookup id
  unpromoted : ∀ id, part id → a.globals.globalName id = none ∧ b.globals.globalName id = none
  level : a.callDepth = b.callDepth

/-- Two such states that have reported the same since their reports were `first` and `second`. -/
structure Abreast (part : NodeId → Prop) (first second : List Diagnostic) (a b : State) : Prop
    extends Alike part a b where
  reported : ∃ new, a.diagnostics = first ++ new ∧ b.diagnostics = second ++ new

/-- A part of a graph that reaches no node outside it. -/
def Enclosed (graph : Graph) (part : NodeId → Prop) : Prop :=
  ∀ ⦃id below⦄, part id → Relation.ReflTransGen graph.Refers id below → part below

theorem enclosed_reached (graph : Graph) (id : NodeId) :
    Enclosed graph (Relation.ReflTransGen graph.Refers id) :=
  fun _ _ => .trans

/-- Whatever is derived in one state is derived in every state that is abreast of it. -/
def Mirrored (part : NodeId → Prop) (J : Judgement) : Prop :=
  ∀ ⦃id site events verdict a a' b first second⦄, part id → J id site a events verdict a' →
    Abreast part first second a b →
    ∃ b', J id site b events verdict b' ∧ Abreast part first second a' b'

section

variable {part : NodeId → Prop} {a b : State} {first second : List Diagnostic} {id : NodeId}

theorem Alike.nameFor_eq (alike : Alike part a b) (within : part id) (proposal : String) :
    a.nameFor id proposal = b.nameFor id proposal := by
  have same := alike.named id within
  simp only [State.nameFor, GlobalModels.resolveName, same]
  split <;> rfl

theorem Alike.undeclared {graph : Graph} (alike : Alike part a b) (within : part id)
    (fresh : Undeclared graph id a) : Undeclared graph id b where
  nominal := fresh.nominal
  unpromoted := (alike.unpromoted id within).2
  hidden := (alike.visible id within).symm.trans fresh.hidden

namespace Abreast

theorem enter (abreast : Abreast part first second a b) :
    Abreast part first second a.enter b.enter where
  toAlike := ⟨abreast.named, abreast.visible, abreast.unpromoted, congrArg (· + 1) abreast.level⟩
  reported := abreast.reported

theorem leave (abreast : Abreast part first second a b) :
    Abreast part first second a.leave b.leave where
  toAlike := ⟨abreast.named, abreast.visible, abreast.unpromoted, congrArg (· - 1) abreast.level⟩
  reported := abreast.reported

theorem within (abreast : Abreast part first second a b) {scope scope' : Scope}
    (visible : ∀ id, part id → scope.lookup id = scope'.lookup id) :
    Abreast part first second (a.within scope) (b.within scope') where
  toAlike := ⟨abreast.named, visible, abreast.unpromoted, abreast.level⟩
  reported := abreast.reported

theorem note (abreast : Abreast part first second a b) (location : String)
    (failure : Option Failure) :
    Abreast part first second (a.note location failure) (b.note location failure) := by
  cases failure with
  | none => exact abreast
  | some failure =>
      obtain ⟨new, left, right⟩ := abreast.reported
      refine ⟨⟨abreast.named, abreast.visible, abreast.unpromoted, abreast.level⟩,
        new ++ [⟨location, failure⟩], ?_, ?_⟩
      · rw [← List.append_assoc, ← left]
        rfl
      · rw [← List.append_assoc, ← right]
        rfl

theorem naming (abreast : Abreast part first second a b) (within : part id) (proposal : String) :
    Abreast part first second (a.named id proposal) (b.named id proposal) where
  named other inside := by
    have same := abreast.nameFor_eq within proposal
    simp only [State.nameFor] at same
    simp only [State.named, State.withGlobals, GlobalModels.nameOf_resolveName, same,
      abreast.named other inside]
  visible := abreast.visible
  unpromoted other inside := by
    simpa only [State.named_globalName] using abreast.unpromoted other inside
  level := abreast.level
  reported := abreast.reported

theorem showing (abreast : Abreast part first second a b) (within : part id) (proposal : String) :
    Abreast part first second (a.shown id proposal) (b.shown id proposal) := by
  refine (abreast.naming within proposal).within fun other inside => ?_
  rw [Scope.lookup_insert, Scope.lookup_insert, abreast.nameFor_eq within,
    abreast.visible other inside]

end Abreast

theorem Members.mirrored {δ : Type} {J : Judgement} (mirrored : Mirrored part J)
    {scope scope' : Scope} (visible : ∀ id, part id → scope.lookup id = scope'.lookup id)
    {members : List (Member δ)} (inside : ∀ member ∈ members, part member.id) {draft final : δ}
    {events : List Event} {a' : State} (runs : Members J scope members draft a events final a')
    (abreast : Abreast part first second a b) :
    ∃ b', Members J scope' members draft b events final b' ∧ Abreast part first second a' b' := by
  induction runs generalizing b with
  | nil => exact ⟨b, .nil, abreast⟩
  | cons derived _ ih =>
      obtain ⟨own, others⟩ := List.forall_mem_cons.mp inside
      obtain ⟨next, derived', after⟩ := mirrored own derived (abreast.within visible)
      obtain ⟨b', runs', last⟩ := ih others ((after.within abreast.visible).note _ _)
      exact ⟨b', .cons derived' runs', last⟩

theorem Declares.mirrored {graph : Graph} {settings : Settings} {J : Judgement}
    (mirrored : Mirrored part J) {scope scope' : Scope}
    (visible : ∀ id, part id → scope.lookup id = scope'.lookup id)
    (inside : ∀ below, graph.Refers id below → part below) {name : String}
    {description : Option String} {depth : Nat} {events : List Event}
    {definition : Option Declaration} {a' : State}
    (declares : Declares graph settings J id name description scope depth a events definition a')
    (abreast : Abreast part first second a b) :
    ∃ b', Declares graph settings J id name description scope' depth b events definition b' ∧
      Abreast part first second a' b' := by
  cases declares with
  | @record fields _ _ _ _ kind runs =>
      have within : ∀ member ∈ fields.map (fieldMember graph settings name depth),
          part member.id := by
        intro member listed
        obtain ⟨field, found, rfl⟩ := List.mem_map.mp listed
        have member : IsMember graph id depth field.2 _ := .field kind found
        exact inside _ member.child
      obtain ⟨b', runs', after⟩ := runs.mirrored mirrored visible within abreast
      exact ⟨b', .record kind runs', after⟩
  | enumeration kind => exact ⟨b, .enumeration kind, abreast⟩
  | literal kind => exact ⟨b, .literal kind, abreast⟩
  | @union options _ _ _ _ kind runs =>
      have within : ∀ member ∈ options.zipIdx.map (optionMember graph name depth),
          part member.id := by
        intro member listed
        obtain ⟨option, found, rfl⟩ := List.mem_map.mp listed
        have member : IsMember graph id depth option.1
            (.member depth true ("Option" ++ toString (option.2 + 1))) :=
          .option kind (List.fst_mem_of_mem_zipIdx found)
        exact inside _ member.child
      obtain ⟨b', runs', after⟩ := runs.mirrored mirrored visible within abreast
      exact ⟨b', .union kind runs', after⟩

end

section

variable {graph : Graph} {settings : Settings} {part : NodeId → Prop} {budget : Nat} {id : NodeId}
  {site : Site} {state next a b : State} {events : List Event} {verdict : Verdict}

/-- Two states that agree on what a node reaches are taken through the same typing. -/
theorem Step.mirrored (secluded : ∀ id site, promotes graph settings id site = false)
    (enclosed : Enclosed graph part) {J : Judgement} (below : Mirrored part J) :
    Mirrored part (Step graph settings J) := by
  intro id site events verdict a a' b first second within step abreast
  have refers (other : NodeId) (refers : graph.Refers id other) : part other :=
    enclosed within (.single refers)
  cases step with
  | primitive kind => exact ⟨b, .primitive kind, abreast⟩
  | empty kind => exact ⟨b, .empty kind, abreast⟩
  | unsupported kind => exact ⟨b, .unsupported kind, abreast⟩
  | endless kind chain => exact ⟨b, .endless kind chain, abreast⟩
  | optional kind chain inner =>
      have reached := enclosed within (Graph.refers_of_leads (reaches_of_unwrap? chain))
      obtain ⟨b', derived, after⟩ := below reached inner abreast
      exact ⟨b', .optional kind chain derived, after⟩
  | collection kind inner =>
      obtain ⟨b', derived, after⟩ :=
        below (refers _ (Graph.leads_of_collection kind).refers) inner abreast
      exact ⟨b', .collection kind derived, after⟩
  | transform kind inner =>
      obtain ⟨b', derived, after⟩ :=
        below (refers _ (Graph.leads_of_transform kind).refers) inner abreast
      exact ⟨b', .transform kind derived, after⟩
  | promoted _ promoted =>
      exact absurd (promoted.symm.trans (abreast.unpromoted id within).1) nofun
  | visible nominal _ visible =>
      refine ⟨_, .visible nominal (abreast.unpromoted id within).2 ?_, abreast.naming within _⟩
      exact (abreast.visible id within).symm.trans visible
  | accepted _ global | collided _ global | void _ global =>
      exact absurd (global.symm.trans (secluded id site)) nofun
  | nested fresh kept same declares =>
      subst same
      have shown := abreast.showing within (proposedName graph id site)
      obtain ⟨b', declares', after⟩ := declares.mirrored below shown.visible refers shown
      rw [abreast.nameFor_eq within] at declares' ⊢
      exact ⟨b', .nested (abreast.undeclared within fresh) kept rfl declares', after⟩
  | hollow fresh kept same declares =>
      subst same
      have shown := abreast.showing within (proposedName graph id site)
      obtain ⟨b', declares', after⟩ := declares.mirrored below shown.visible refers shown
      rw [abreast.nameFor_eq within] at declares'
      refine ⟨_, .hollow (abreast.undeclared within fresh) kept rfl declares', ?_⟩
      refine after.within fun other inside => ?_
      rw [Scope.lookup_remove, Scope.lookup_remove, after.visible other inside]

theorem Derives.mirrored (secluded : ∀ id site, promotes graph settings id site = false)
    (enclosed : Enclosed graph part) (budget : Nat) : Mirrored part (Derives graph settings budget) := by
  induction budget with
  | zero =>
      rintro id site events verdict a a' b first second _ ⟨rfl, rfl, rfl⟩ abreast
      exact ⟨b, ⟨rfl, rfl, rfl⟩, abreast⟩
  | succ budget ih =>
      intro id site events verdict a a' b first second within derived abreast
      cases derived with
      | limit deep => exact ⟨b, .limit (abreast.level ▸ deep), abreast⟩
      | inside room step =>
          obtain ⟨b', step', after⟩ := Step.mirrored secluded enclosed ih within step abreast.enter
          exact ⟨_, .inside (abreast.level ▸ room) step', after.leave⟩

/-! ## The rest of a state -/

/-- What is known of the nodes outside a part stays. -/
structure Untouched (part : NodeId → Prop) (state next : State) : Prop where
  named : ∀ id, ¬ part id → next.globals.nameOf id = state.globals.nameOf id
  visible : ∀ id, ¬ part id → next.scope.lookup id = state.scope.lookup id

theorem Untouched.refl (part : NodeId → Prop) (state : State) : Untouched part state state :=
  ⟨fun _ _ => rfl, fun _ _ => rfl⟩

theorem Untouched.naming (state : State) (within : part id) (proposal : String) :
    Untouched part state (state.named id proposal) where
  named other outside := by
    have different : id ≠ other := by
      rintro rfl
      exact outside within
    exact (GlobalModels.nameOf_resolveName _ _ _ _).trans (if_neg different)
  visible _ _ := rfl

theorem Declares.nameOf_untouched
    (enclosed : Enclosed graph part)
    (below : ∀ {id site state events verdict next},
      Derives graph settings budget id site state events verdict next → part id →
      Untouched part state next)
    (within : part id) {name : String} {description : Option String} {scope : Scope} {depth : Nat}
    {definition : Option Declaration}
    (declares : Declares graph settings (Derives graph settings budget) id name description scope
      depth state events definition next) :
    ∀ other, ¬ part other → next.globals.nameOf other = state.globals.nameOf other := by
  have invariant := declares.joins_invariant
    (I := fun _ _ _ last => ∀ other, ¬ part other →
      last.globals.nameOf other = state.globals.nameOf other) (fun _ _ => rfl) ?_
  · obtain ⟨_, held, _⟩ := invariant
    exact held
  · intro _ _ _ _ inner _ _ _ _ _ failure location member derived _ held other outside
    have reached := enclosed within (.single member.child)
    rw [State.note_globals]
    exact ((below derived reached).named other outside).trans (held other outside)

/-- Typing leaves alone what is known of the nodes that are not reached. -/
theorem Derives.untouched
    (enclosed : Enclosed graph part)
    (derived : Derives graph settings budget id site state events verdict next)
    (within : part id) : Untouched part state next := by
  refine Derives.induction (P := fun id _ state _ _ next =>
    part id → Untouched part state next) (fun _ => .refl _ _)
    (fun kept within => ⟨(kept within).named, (kept within).visible⟩) ?_ derived within
  intro budget id site state events verdict next below step within
  have named := Untouched.naming state within (proposedName graph id site)
  have members {name : String} {scope : Scope} {start next : State} {events : List Event}
      {definition : Option Declaration}
      (declares : Declares graph settings (Derives graph settings budget) id name
        (describedAs graph id site) scope site.depth start events definition next)
      (same : start.globals.nameOf = (state.named id (proposedName graph id site)).globals.nameOf)
      (other : NodeId) (outside : ¬ part other) :
      next.globals.nameOf other = state.globals.nameOf other := by
    rw [declares.nameOf_untouched enclosed below within other outside, same]
    exact named.named other outside
  cases step with
  | primitive _ | empty _ | unsupported _ | endless _ _ => exact .refl _ _
  | optional _ chain inner =>
      exact below inner (enclosed within (Graph.refers_of_leads (reaches_of_unwrap? chain)))
  | collection kind inner =>
      exact below inner (enclosed within (.single (Graph.leads_of_collection kind).refers))
  | transform kind inner =>
      exact below inner (enclosed within (.single (Graph.leads_of_transform kind).refers))
  | promoted _ _ | visible _ _ _ => exact named
  | accepted _ _ _ declares registered =>
      have accepts := GlobalModels.accepts_of_register registered
      refine ⟨fun other outside => ?_, fun other _ => congrArg (·.lookup other) declares.scope_eq⟩
      exact (accepts.names other).trans (members declares rfl other outside)
  | collided _ _ _ declares registered =>
      obtain ⟨_, rfl⟩ := GlobalModels.register_error registered
      have kept := members declares rfl
      exact ⟨kept, fun other _ => congrArg (·.lookup other) declares.scope_eq⟩
  | void _ _ _ declares =>
      have kept := members declares rfl
      exact ⟨kept, fun other _ => congrArg (·.lookup other) declares.scope_eq⟩
  | nested _ _ _ declares =>
      refine ⟨members declares rfl, fun other outside => ?_⟩
      have different : id ≠ other := by
        rintro rfl
        exact outside within
      rw [declares.scope_eq, State.shown_scope, Scope.lookup_insert, if_neg different]
  | hollow fresh _ _ declares =>
      have kept := members declares rfl
      refine ⟨kept, fun other _ => ?_⟩
      rw [State.within_scope, declares.scope_eq, State.shown_scope,
        Scope.remove_insert _ _ _ fresh.hidden]

end

/-! ## Locality -/

/-- A verdict tells the scope after it. -/
theorem ScopeEffect.unique {before after after' : Scope} {verdict : Verdict}
    (effect : ScopeEffect before verdict after) (other : ScopeEffect before verdict after') :
    after = after' := by
  rcases verdict with failure | ⟨_ | typed⟩
  · exact effect.trans other.symm
  · exact effect.trans other.symm
  · cases holds : typed.model with
    | none =>
        simp only [ScopeEffect, holds] at effect other
        exact effect.trans other.symm
    | some model =>
        simp only [ScopeEffect, holds] at effect other
        exact effect.2.trans other.2.symm

section

variable {graph : Graph} {settings : Settings} {id : NodeId} {state last : State}

/-- Calls for nodes that have nothing in common with a node do not name what the node reaches. -/
theorem Run.nameOf_eq {calls : List Call} {log : List Event}
    (run : Run graph settings state calls log last) {other : NodeId}
    (apart : ∀ call ∈ calls, ¬ Relation.ReflTransGen graph.Refers call.id other) :
    last.globals.nameOf other = state.globals.nameOf other := by
  induction run with
  | nil => rfl
  | cons derived _ ih =>
      obtain ⟨own, later⟩ := List.forall_mem_cons.mp apart
      have kept := derived.untouched (enclosed_reached graph _) .refl
      exact (ih later).trans (kept.named other own)

end

/-- Where nothing is flagged or hoisted, typing a node comes to the same in any two states that know the
same of the nodes that it reaches: the verdict and the new reports are the same, what is known of these
nodes is the same afterwards, and what is known of any other node is not touched.  So calls before that
have no node in common with it, on whatever state, change nothing about its type. -/
theorem typing_local {graph : Graph} {settings : Settings} (never : settings.hoisting = .never)
    (unflagged : ∀ id, (graph.label id).isGlobal = false) (id : NodeId) :
    (∀ site {a b : State}, Alike (Relation.ReflTransGen graph.Refers id) a b →
      ∃ verdict new a' b',
        typeHere graph settings id site a = ending verdict a' ∧
        typeHere graph settings id site b = ending verdict b' ∧
        a'.diagnostics = a.diagnostics ++ new ∧ b'.diagnostics = b.diagnostics ++ new ∧
        Alike (Relation.ReflTransGen graph.Refers id) a' b' ∧
        Untouched (Relation.ReflTransGen graph.Refers id) a a' ∧
        Untouched (Relation.ReflTransGen graph.Refers id) b b') ∧
    ∀ (calls : List Call) (state : State) (position : Position),
      (∀ other, state.globals.globalName other = none) →
      (∀ call ∈ calls, ∀ other, Relation.ReflTransGen graph.Refers call.id other →
        ¬ Relation.ReflTransGen graph.Refers id other) →
      let later := calls.foldl (fun state call => call.after graph settings state) state
      ∃ verdict new next last,
        typeAt graph settings id position state = ending verdict next ∧
        typeAt graph settings id position later = ending verdict last ∧
        next.diagnostics = state.diagnostics ++ new ∧ last.diagnostics = later.diagnostics ++ new := by
  have secluded (id : NodeId) (site : Site) : promotes graph settings id site = false :=
    secluded_of_never never unflagged (id, site) id site .refl
  have enclosed := enclosed_reached graph id
  have mirrored {site : Site} {events : List Event} {verdict : Verdict} {a a' b : State}
      (derived : Derives graph settings maxDepth id site a events verdict a')
      (alike : Alike (Relation.ReflTransGen graph.Refers id) a b) :=
    have abreast : Abreast (Relation.ReflTransGen graph.Refers id) a.diagnostics b.diagnostics a b :=
      ⟨alike, [], by simp, by simp⟩
    Derives.mirrored secluded enclosed maxDepth .refl derived abreast
  constructor
  · intro site a b alike
    obtain ⟨events, verdict, a', run, derived⟩ := typeWithin_follows graph settings maxDepth id site a
    obtain ⟨b', derived', after⟩ := mirrored derived alike
    obtain ⟨new, left, right⟩ := after.reported
    exact ⟨verdict, new, a', b', run, typeHere_iff.mpr ⟨events, derived'⟩, left, right, after.toAlike,
      derived.untouched enclosed .refl, derived'.untouched enclosed .refl⟩
  · intro calls state position unpromoted apart later
    obtain ⟨log, run⟩ := exists_run graph settings calls state
    have kept := run.unpromoting fun call _ => secluded_of_never never unflagged _
    have alike : Alike (Relation.ReflTransGen graph.Refers id) (state.within position.scope)
        (later.within position.scope) := {
      named := fun other reached => by
        refine (run.nameOf_eq fun call listed reaches => ?_).symm
        exact apart call listed other reaches reached
      visible := fun _ _ => rfl
      unpromoted := fun other _ =>
        ⟨unpromoted other, (kept.promoted other).trans (unpromoted other)⟩
      level := run.callDepth_eq.symm }
    obtain ⟨events, verdict, next, run, derived⟩ := typeWithin_follows graph settings maxDepth id
      position.toSite (state.within position.scope)
    obtain ⟨last, derived', after⟩ := mirrored derived alike
    obtain ⟨new, left, right⟩ := after.reported
    have run' := typeHere_iff.mpr ⟨events, derived'⟩
    -- The outcome of a call has the scope after it, which the verdict tells.
    have scopes : next.scope = last.scope := derived.scopeEffect.unique derived'.scopeEffect
    refine ⟨_, new, _, last.within later.scope, typeAt_run run, ?_, left, right⟩
    rw [scopes]
    exact typeAt_run run'

/-- Two objects that contain themselves, with nothing in common. -/
def groveGraph : Graph where
  nodes := #[
    { kind := .primitive .string },
    { kind := .object [("label", ⟨0⟩), ("branches", ⟨2⟩)] },
    { kind := .collection .array ⟨1⟩ },
    { kind := .object [("next", ⟨4⟩)] },
    { kind := .optional ⟨3⟩ }]

/-- The first object is typed alike where nothing has been typed before and where the second object has a
name that the first one gets, and after a call for the second object. -/
theorem groveGraph_local :
    let settings : Settings := { hoisting := .never }
    let position : Position := { fallback := "Root", scope := {} }
    let named : State := { globals := { names := [(⟨3⟩, "Root")] }, scope := ⟨[(⟨3⟩, "Root")]⟩ }
    let called := [Call.mk ⟨3⟩ position].foldl
      (fun state call => call.after groveGraph settings state) {}
    (∃ verdict a b,
      typeHere groveGraph settings ⟨1⟩ position.toSite {} = ending verdict a ∧
      typeHere groveGraph settings ⟨1⟩ position.toSite named = ending verdict b ∧
      a.globals.nameOf ⟨1⟩ = b.globals.nameOf ⟨1⟩ ∧ b.globals.nameOf ⟨3⟩ = some "Root") ∧
    ∃ verdict a b,
      typeAt groveGraph settings ⟨1⟩ position {} = ending verdict a ∧
      typeAt groveGraph settings ⟨1⟩ position called = ending verdict b := by
  intro settings position named called
  have checked : (∀ i < 3, ∀ below ∈ (groveGraph.kind ⟨i⟩).children, below.index < 3) ∧
      ∀ i < 5, 3 ≤ i →
        ∀ below ∈ (groveGraph.kind ⟨i⟩).children, 3 ≤ below.index ∧ below.index < 5 := by
    decide
  have first {other : NodeId} (reached : Relation.ReflTransGen groveGraph.Refers ⟨1⟩ other) :
      other.index < 3 := by
    induction reached with
    | refl => decide
    | tail _ refers ih => exact checked.1 _ ih _ refers
  have second {other : NodeId} (reached : Relation.ReflTransGen groveGraph.Refers ⟨3⟩ other) :
      3 ≤ other.index ∧ other.index < 5 := by
    induction reached with
    | refl => decide
    | tail _ refers ih => exact checked.2 _ ih.2 ih.1 _ refers
  have apart (other : NodeId) (reached : Relation.ReflTransGen groveGraph.Refers ⟨3⟩ other) :
      ¬ Relation.ReflTransGen groveGraph.Refers ⟨1⟩ other := by
    intro common
    have outside := second reached
    have inside := first common
    omega
  have different {id : NodeId} (reached : Relation.ReflTransGen groveGraph.Refers ⟨1⟩ id) :
      (⟨3⟩ : NodeId) ≠ id := by
    rintro rfl
    exact apart _ .refl reached
  have alike : Alike (Relation.ReflTransGen groveGraph.Refers ⟨1⟩) {} named := {
    named := fun id reached => (if_neg (different reached)).symm
    visible := fun id reached => (if_neg (different reached)).symm
    unpromoted := fun _ _ => ⟨rfl, rfl⟩
    level := rfl }
  have unflagged : ∀ id, (groveGraph.label id).isGlobal = false :=
    Graph.forall_node (P := fun node => node.label.isGlobal = false) (by decide) rfl
  have never : settings.hoisting = .never := rfl
  obtain ⟨states, calls⟩ := typing_local never unflagged ⟨1⟩
  constructor
  · obtain ⟨verdict, _, a, b, left, right, _, _, after, _, kept⟩ := states position.toSite alike
    refine ⟨verdict, a, b, left, right, after.named _ .refl, ?_⟩
    exact (kept.named ⟨3⟩ (apart _ .refl)).trans rfl
  · obtain ⟨verdict, _, a, b, left, right, _⟩ :=
      calls [⟨⟨3⟩, position⟩] {} position (fun _ => rfl) (List.forall_mem_singleton.mpr apart)
    exact ⟨verdict, a, b, left, right⟩

end RouterClient.Typing
