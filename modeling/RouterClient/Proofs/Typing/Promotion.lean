import RouterClient.Proofs.Typing.Containment
import RouterClient.Proofs.Typing.Drafts
import RouterClient.Proofs.Typing.Registry

/-! # Which nodes are promoted

Whether a node is declared for the whole file is decided at the site where it is first needed, by its
label, by the nearest wrapper or collection that names it and by the depth of the site.  Sites are handed
down from node to node, so what is decided along a whole run is told by the routes on which nodes are
reached.
-/

namespace RouterClient.Typing

open Model (GlobalModels LocalModel Scope)
open Schema (NodeId Graph Kind)
open Code (Declaration)

/-- A node at a site, and one that is typed for its sake. -/
inductive Requests (graph : Graph) : NodeId × Site → NodeId × Site → Prop where
  | optional {id site inner base declared} :
      graph.kind id = .optional inner ∨ graph.kind id = .nullable inner →
      unwrap? graph graph.size id site.declared = some (base, declared) →
      Requests graph (id, site) (base, site.descend true declared)
  | collection {id site arrangement element} :
      graph.kind id = .collection arrangement element →
      Requests graph (id, site)
        (element, site.descend false (declaredBy graph id site.declared))
  | transform {id site inner} :
      graph.kind id = .transform inner →
      Requests graph (id, site)
        (inner, site.descend site.marked (declaredBy graph id site.declared))
  | member {id site below inner} :
      IsMember graph id site.depth below inner → Requests graph (id, site) (below, inner)

/-- The steps by which typing comes from one place to another. -/
abbrev Route (graph : Graph) : NodeId × Site → NodeId × Site → Prop :=
  Relation.ReflTransGen (Requests graph)

/-- The decision on a node at a site. -/
def promotes (graph : Graph) (settings : Settings) (id : NodeId) (site : Site) : Bool :=
  isGlobal settings (graph.label id) (site.declared.map graph.label) site.depth

/-- Nothing that is typed from a place on is declared for the whole file. -/
def Secluded (graph : Graph) (settings : Settings) (place : NodeId × Site) : Prop :=
  ∀ id site, Route graph place (id, site) → promotes graph settings id site = false

/-- What typing does to the global models where nothing is promoted. -/
structure Unpromoting (before : GlobalModels Declaration) (events : List Event)
    (after : GlobalModels Declaration) : Prop where
  events : events = []
  models : after.models = before.models
  promoted : ∀ id, after.globalName id = before.globalName id

section

variable {graph : Graph} {settings : Settings} {budget : Nat} {id : NodeId} {site : Site}
  {place below : NodeId × Site} {state next : State} {before middle after : GlobalModels Declaration}
  {events later : List Event} {verdict : Verdict}

theorem Secluded.of_requests (secluded : Secluded graph settings place)
    (requests : Requests graph place below) : Secluded graph settings below :=
  fun id site route => secluded id site (.head requests route)

theorem Unpromoting.refl (globals : GlobalModels Declaration) : Unpromoting globals [] globals :=
  ⟨rfl, rfl, fun _ => rfl⟩

theorem Unpromoting.resolveName (globals : GlobalModels Declaration) (id : NodeId)
    (proposal : String) : Unpromoting globals [] (globals.resolveName id proposal).2 :=
  ⟨rfl, globals.models_resolveName id proposal, fun _ => globals.globalName_resolveName id _ proposal⟩

theorem Unpromoting.trans (first : Unpromoting before events middle)
    (second : Unpromoting middle later after) : Unpromoting before (events ++ later) after where
  events := by rw [first.events, second.events, List.append_nil]
  models := second.models.trans first.models
  promoted id := (second.promoted id).trans (first.promoted id)

theorem Declares.unpromoting {name : String} {description : Option String} {scope : Scope}
    {depth : Nat} {definition : Option Declaration}
    (members : ∀ {below site state events verdict next}, IsMember graph id depth below site →
      Derives graph settings budget below site state events verdict next →
      Unpromoting state.globals events next.globals)
    (declares : Declares graph settings (Derives graph settings budget) id name description scope
      depth state events definition next) : Unpromoting state.globals events next.globals := by
  have invariant := declares.joins_invariant
    (I := fun _ _ log last => Unpromoting state.globals log last.globals) (.refl _) ?_
  · obtain ⟨_, held, _⟩ := invariant
    exact held
  · intro _ _ _ _ _ _ _ _ _ _ failure location member derived _ held
    have kept := members member derived
    rw [State.note_globals]
    exact held.trans kept

/-- Where nothing is promoted, nothing is declared for the whole file either. -/
theorem Derives.unpromoting
    (derived : Derives graph settings budget id site state events verdict next)
    (secluded : Secluded graph settings (id, site)) :
    Unpromoting state.globals events next.globals := by
  refine Derives.induction (P := fun id site state events _ next =>
    Secluded graph settings (id, site) → Unpromoting state.globals events next.globals)
    (fun _ => .refl _) (fun kept => kept) ?_ derived secluded
  intro budget id site state events verdict next below step secluded
  have own : promotes graph settings id site = false := secluded id site .refl
  cases step with
  | primitive _ | empty _ | unsupported _ | endless _ _ => exact .refl _
  | optional kind chain inner => exact below inner (secluded.of_requests (.optional kind chain))
  | collection kind inner => exact below inner (secluded.of_requests (.collection kind))
  | transform kind inner => exact below inner (secluded.of_requests (.transform kind))
  | promoted _ _ | visible _ _ _ => exact .resolveName _ _ _
  | accepted _ global _ _ _ | collided _ global _ _ _ | void _ global _ _ =>
      exact absurd (own.symm.trans global) nofun
  | nested _ _ _ declares | hollow _ _ _ declares =>
      refine (Unpromoting.resolveName _ _ _).trans (declares.unpromoting fun member derived => ?_)
      exact below derived (secluded.of_requests (.member member))

/-- A step is for a promoted node's sake where the decision on the node says so. -/
def PromotedOn (graph : Graph) (settings : Settings) (place : NodeId × Site) (id : NodeId) : Prop :=
  ∃ site, Route graph place (id, site) ∧ promotes graph settings id site = true

theorem PromotedOn.of_requests (promoted : PromotedOn graph settings below id)
    (requests : Requests graph place below) : PromotedOn graph settings place id := by
  obtain ⟨site, route, decided⟩ := promoted
  exact ⟨site, .head requests route, decided⟩

/-- What typing from a place promotes is promoted on a route from there. -/
def Promotes (graph : Graph) (settings : Settings) (place : NodeId × Site)
    (before after : GlobalModels Declaration) : Prop :=
  ∀ id name, after.globalName id = some name →
    (∃ known, before.globalName id = some known) ∨ PromotedOn graph settings place id

theorem Promotes.of_same (same : ∀ id, after.globalName id = before.globalName id) :
    Promotes graph settings place before after :=
  fun id name known => .inl ⟨name, (same id).symm.trans known⟩

theorem Promotes.trans (first : Promotes graph settings place before middle)
    (second : Promotes graph settings place middle after) :
    Promotes graph settings place before after := by
  intro id name known
  rcases second id name known with ⟨known, found⟩ | promoted
  · exact first id known found
  · exact .inr promoted

theorem Promotes.resolveName (globals : GlobalModels Declaration) (other : NodeId)
    (proposal : String) :
    Promotes graph settings place globals (globals.resolveName other proposal).2 :=
  .of_same fun _ => globals.globalName_resolveName other _ proposal

/-- A node is reserved where it is to be promoted, and the reservation is undone or not. -/
theorem Promotes.close {proposal : String} (decided : promotes graph settings id site = true)
    (body : Promotes graph settings (id, site) (before.reserveOwn id proposal) middle)
    (others : ∀ other, id ≠ other → after.globalName other = middle.globalName other) :
    Promotes graph settings (id, site) before after := by
  intro other name known
  by_cases same : id = other
  · exact .inr ⟨site, same ▸ .refl, same ▸ decided⟩
  · rw [others other same] at known
    refine (body other name known).imp_left fun ⟨found, reserved⟩ => ⟨found, ?_⟩
    rwa [GlobalModels.globalName_reserveOwn_of_ne _ _ _ same] at reserved

theorem Promotes.of_requests (promotes : Promotes graph settings below before after)
    (requests : Requests graph place below) : Promotes graph settings place before after :=
  fun id name known => (promotes id name known).imp_right (·.of_requests requests)

theorem Declares.promotion {name : String} {description : Option String} {scope : Scope}
    {definition : Option Declaration}
    (members : ∀ {below site state events verdict next},
      Derives graph settings budget below site state events verdict next →
      Promotes graph settings (below, site) state.globals next.globals)
    (declares : Declares graph settings (Derives graph settings budget) id name description scope
      site.depth state events definition next) :
    Promotes graph settings (id, site) state.globals next.globals := by
  have invariant := declares.joins_invariant
    (I := fun _ _ _ last => Promotes graph settings (id, site) state.globals last.globals)
    (.of_same fun _ => rfl) ?_
  · obtain ⟨_, held, _⟩ := invariant
    exact held
  · intro _ _ _ _ _ _ _ _ _ _ failure location member derived _ held
    have kept := (members derived).of_requests (.member member)
    rw [State.note_globals]
    exact held.trans kept

theorem Derives.promotion
    (derived : Derives graph settings budget id site state events verdict next) :
    Promotes graph settings (id, site) state.globals next.globals := by
  refine Derives.induction (P := fun id site state _ _ next =>
    Promotes graph settings (id, site) state.globals next.globals)
    (.of_same fun _ => rfl) (fun kept => kept) ?_ derived
  intro budget id site state events verdict next below step
  cases step with
  | primitive _ | empty _ | unsupported _ | endless _ _ => exact .of_same fun _ => rfl
  | optional kind chain inner => exact (below inner).of_requests (.optional kind chain)
  | collection kind inner => exact (below inner).of_requests (.collection kind)
  | transform kind inner => exact (below inner).of_requests (.transform kind)
  | promoted _ _ | visible _ _ _ => exact .resolveName _ _ _
  | accepted _ global _ declares registered =>
      have accepts := GlobalModels.accepts_of_register registered
      exact .close global (declares.promotion below) fun _ => accepts.others
  | collided _ global _ declares registered =>
      obtain ⟨_, rfl⟩ := GlobalModels.register_error registered
      exact .close global (declares.promotion below) fun _ =>
        GlobalModels.globalName_abandon_of_ne _
  | void _ global _ declares =>
      exact .close global (declares.promotion below) fun _ =>
        GlobalModels.globalName_abandon_of_ne _
  | nested _ _ _ declares | hollow _ _ _ declares =>
      exact (Promotes.resolveName _ _ _).trans (declares.promotion below)

theorem Run.promotion {calls : List Call} {log : List Event} {last : State} {name : String}
    (run : Run graph settings state calls log last) (known : last.globals.globalName id = some name) :
    (∃ earlier, state.globals.globalName id = some earlier) ∨
    ∃ call ∈ calls, PromotedOn graph settings (call.id, call.position.toSite) id := by
  induction run with
  | nil => exact .inl ⟨name, known⟩
  | cons derived _ ih =>
      rcases ih known with ⟨earlier, found⟩ | ⟨call, listed, promoted⟩
      · refine (derived.promotion id earlier found).imp_right fun promoted => ?_
        exact ⟨_, List.mem_cons_self, promoted⟩
      · exact .inr ⟨call, List.mem_cons_of_mem _ listed, promoted⟩

theorem Run.unpromoting {calls : List Call} {log : List Event} {last : State}
    (run : Run graph settings state calls log last)
    (secluded : ∀ call ∈ calls, Secluded graph settings (call.id, call.position.toSite)) :
    Unpromoting state.globals log last.globals := by
  induction run with
  | nil => exact .refl _
  | cons derived _ ih =>
      have first := derived.unpromoting (secluded _ List.mem_cons_self)
      have kept := first.trans (ih fun call listed => secluded call (List.mem_cons_of_mem _ listed))
      exact kept

/-- A site keeps its depth or goes further down. -/
theorem depth_le_of_route {place other : NodeId × Site} (route : Route graph place other) :
    place.2.depth ≤ other.2.depth := by
  induction route with
  | refl => exact Nat.le_refl _
  | tail _ requests ih =>
      refine ih.trans ?_
      cases requests with
      | optional _ _ | collection _ | transform _ => exact Nat.le_refl _
      | member member =>
          cases member with
          | field _ _ | option _ _ => exact Nat.le_succ _

/-- Nothing asks for a promotion. -/
theorem secluded_of_never (never : settings.hoisting = .never)
    (unflagged : ∀ id, (graph.label id).isGlobal = false) (place : NodeId × Site) :
    Secluded graph settings place := by
  intro id site _
  cases declared : site.declared <;>
    simp [promotes, isGlobal, never, unflagged, declared]

/-- Below the top, nothing asks for a promotion. -/
theorem secluded_of_top (top : settings.hoisting = .top)
    (unflagged : ∀ id, (graph.label id).isGlobal = false) {place : NodeId × Site}
    (deep : 0 < place.2.depth) : Secluded graph settings place := by
  intro id site route
  have deeper : site.depth ≠ 0 := Nat.ne_of_gt (deep.trans_le (depth_le_of_route route))
  cases declared : site.declared <;>
    simp [promotes, isGlobal, top, unflagged, declared, deeper]

end

/-! ## Where a name comes from -/

section

variable {graph : Graph} {id inner base w : NodeId} {declared above : Option NodeId} {steps : Nat}
  {origin place : NodeId × Site}

theorem declaredBy_eq_some (given : declaredBy graph id declared = some w) :
    w = id ∨ declared = some w := by
  simp only [declaredBy] at given
  split at given
  · exact .inl (Option.some.inj given).symm
  · exact .inr given

/-- What gives its name under a chain of wrappers is one of them, or did so before. -/
theorem unwrap?_declared (unwrapped : unwrap? graph steps id declared = some (base, some w)) :
    Relation.ReflTransGen graph.Leads id w ∧ Relation.TransGen graph.Leads w base ∨
    declared = some w ∧ Relation.ReflTransGen graph.Leads id base := by
  induction steps generalizing id declared with
  | zero =>
      cases wrapped : wrapped? (graph.kind id) with
      | some inner => simp [unwrap?, wrapped] at unwrapped
      | none =>
          rw [unwrap?_bare wrapped] at unwrapped
          cases unwrapped
          exact .inr ⟨rfl, .refl⟩
  | succ steps ih =>
      cases wrapped : wrapped? (graph.kind id) with
      | none =>
          rw [unwrap?_bare wrapped] at unwrapped
          cases unwrapped
          exact .inr ⟨rfl, .refl⟩
      | some inner =>
          have leads := leads_of_wrapped? wrapped
          rcases ih (by simpa [unwrap?, wrapped] using unwrapped) with ⟨there, onward⟩ | ⟨given, onward⟩
          · exact .inl ⟨.head leads there, onward⟩
          · rcases declaredBy_eq_some given with rfl | given
            · exact .inl ⟨.refl, .head' leads onward⟩
            · exact .inr ⟨given, .head leads onward⟩

/-- A wrapper or a collection that a node is reached through: it is passed on a route from the origin,
or the origin stands inside it. -/
def ReachedThrough (graph : Graph) (origin : NodeId × Site) (w id : NodeId) : Prop :=
  (∃ v site, Route graph origin (v, site) ∧ Relation.ReflTransGen graph.Leads v w ∧
    Relation.TransGen graph.Leads w id) ∨
  origin.2.declared = some w ∧ Relation.ReflTransGen graph.Leads origin.1 id

theorem ReachedThrough.onward (reached : ReachedThrough graph origin w id)
    (onward : Relation.ReflTransGen graph.Leads id inner) : ReachedThrough graph origin w inner := by
  rcases reached with ⟨v, site, route, there, further⟩ | ⟨given, further⟩
  · exact .inl ⟨v, site, route, there, further.trans_left onward⟩
  · exact .inr ⟨given, further.trans onward⟩

/-- What a site calls the nearest wrapper is one that its node is reached through. -/
theorem reachedThrough_of_route (route : Route graph origin place)
    (declared : place.2.declared = some w) : ReachedThrough graph origin w place.1 := by
  have descend {id inner : NodeId} {site : Site} (route : Route graph origin (id, site))
      (leads : graph.Leads id inner) (given : declaredBy graph id site.declared = some w)
      (before : site.declared = some w → ReachedThrough graph origin w id) :
      ReachedThrough graph origin w inner := by
    rcases declaredBy_eq_some given with rfl | given
    · exact .inl ⟨w, site, route, .refl, .single leads⟩
    · exact (before given).onward (.single leads)
  induction route with
  | refl => exact .inr ⟨declared, .refl⟩
  | tail route requests ih =>
      cases requests with
      | optional _ chain =>
          obtain rfl : _ = some w := declared
          rcases unwrap?_declared chain with ⟨there, onward⟩ | ⟨given, onward⟩
          · exact .inl ⟨_, _, route, there, onward⟩
          · exact (ih given).onward onward
      | collection kind | transform kind =>
          exact descend route (Graph.leads_iff.mpr (by rw [kind]; rfl)) declared ih
      | member member =>
          cases member with
          | field _ _ | option _ _ => cases declared

/-- A node that is promoted has a name of its own, or one of a wrapper or a collection that it is
reached through. -/
theorem PromotedOn.named {settings : Settings} (promoted : PromotedOn graph settings origin id) :
    (graph.label id).name.isSome = true ∨
    ∃ w, (graph.label w).name.isSome = true ∧ ReachedThrough graph origin w id := by
  obtain ⟨site, route, decided⟩ := promoted
  simp only [promotes, isGlobal, Bool.and_eq_true, Bool.or_eq_true] at decided
  refine decided.1.imp_right fun named => ?_
  cases declared : site.declared with
  | none => simp [declared] at named
  | some w =>
      refine ⟨w, by simpa [declared] using named, ?_⟩
      exact reachedThrough_of_route route declared

end

/-! ## Nothing is nested -/

/-- What is known where every nominal node is promoted. -/
structure Flat (before : GlobalModels Declaration) (verdict : Verdict)
    (after : GlobalModels Declaration) : Prop where
  typed : ∀ typed, verdict = .ok (some typed) → typed.model = none
  models : ∀ entry ∈ after.models, entry ∈ before.models ∨ entry.2.definition.models = []

section

variable {graph : Graph} {settings : Settings} {budget : Nat} {id : NodeId} {site : Site}
  {state next : State} {before middle after : GlobalModels Declaration} {events : List Event}
  {verdict : Verdict}

theorem Flat.map {f : Typed → Typed} (keeps : ∀ typed, (f typed).model = typed.model)
    (flat : Flat before verdict after) : Flat before (verdict.map (Option.map f)) after where
  typed typed outcome := by
    rcases verdict with failure | ⟨_ | inner⟩
    · cases outcome
    · cases outcome
    · cases outcome
      exact (keeps inner).trans (flat.typed inner rfl)
  models := flat.models

theorem Declares.flat {name : String} {description : Option String} {scope : Scope} {depth : Nat}
    {definition : Option Declaration}
    (members : ∀ {below site state events verdict next},
      Derives graph settings budget below site state events verdict next →
      Flat state.globals verdict next.globals)
    (declares : Declares graph settings (Derives graph settings budget) id name description scope
      depth state events definition next) :
    (∀ declaration, definition = some declaration → declaration.models = []) ∧
      ∀ entry ∈ next.globals.models,
        entry ∈ state.globals.models ∨ entry.2.definition.models = [] := by
  have invariant := declares.body_invariant
    (I := fun body _ last => body.models = [] ∧ ∀ entry ∈ last.globals.models,
      entry ∈ state.globals.models ∨ entry.2.definition.models = [])
    ⟨rfl, fun _ => .inl⟩ ?_
  · obtain ⟨body, ⟨empty, models⟩, declared⟩ := invariant
    refine ⟨fun declaration same => ?_, models⟩
    rw [← empty, ← (declared declaration same).1]
    rfl
  · intro before after log below site middle events verdict next location failure derived grows held
    obtain ⟨empty, models⟩ := held
    have flat := members derived
    refine ⟨?_, fun entry listed => ?_⟩
    · cases grows with
      | same => exact empty
      | more outcome _ absorbed =>
          rw [flat.typed _ outcome] at absorbed
          cases absorbed
          exact empty
    · rw [State.note_globals] at listed
      exact (flat.models entry listed).elim (models entry) .inr

/-- Where every nominal node is promoted, no model is left to be nested. -/
theorem Derives.flat
    (all : ∀ id site, (graph.kind id).isNominal = true → promotes graph settings id site = true)
    (derived : Derives graph settings budget id site state events verdict next) :
    Flat state.globals verdict next.globals := by
  refine Derives.induction (P := fun _ _ state _ verdict next =>
    Flat state.globals verdict next.globals) ⟨nofun, fun _ => .inl⟩ (fun flat => flat) ?_ derived
  intro budget id site state events verdict next below step
  have kept {state next : State} (same : next.globals.models = state.globals.models) :
      ∀ entry ∈ next.globals.models,
        entry ∈ state.globals.models ∨ entry.2.definition.models = [] :=
    fun _ listed => .inl (same ▸ listed)
  cases step with
  | primitive _ => exact ⟨by rintro _ ⟨⟩; rfl, fun _ => .inl⟩
  | empty _ | unsupported _ | endless _ _ => exact ⟨nofun, fun _ => .inl⟩
  | optional _ _ inner => exact (below inner).map (Typed.mark_model _)
  | collection _ inner => exact (below inner).map (Typed.collect_model _)
  | transform _ inner => exact below inner
  | promoted _ _ | visible _ _ _ =>
      exact ⟨by rintro _ ⟨⟩; rfl, kept (state.named_models _ _)⟩
  | accepted _ _ _ declares registered =>
      obtain ⟨empty, models⟩ := declares.flat below
      refine ⟨by rintro _ ⟨⟩; rfl, fun entry listed => ?_⟩
      rcases (GlobalModels.accepts_of_register registered).added entry listed with listed | rfl
      · exact (models entry listed).imp_left fun held => by rwa [State.reserved_models] at held
      · exact .inr (empty _ rfl)
  | collided _ _ _ declares registered =>
      obtain ⟨_, rfl⟩ := GlobalModels.register_error registered
      refine ⟨nofun, fun entry listed => ?_⟩
      refine ((declares.flat below).2 entry listed).imp_left fun held => ?_
      rwa [State.reserved_models] at held
  | void _ _ _ declares =>
      refine ⟨nofun, fun entry listed => ?_⟩
      refine ((declares.flat below).2 entry listed).imp_left fun held => ?_
      rwa [State.reserved_models] at held
  | nested fresh decided _ _ | hollow fresh decided _ _ =>
      exact absurd (decided.symm.trans (all id site fresh.nominal)) nofun

theorem Run.flat
    (all : ∀ id site, (graph.kind id).isNominal = true → promotes graph settings id site = true)
    {calls : List Call} {log : List Event} {last : State}
    (run : Run graph settings state calls log last)
    (before : ∀ entry ∈ state.globals.models, entry.2.definition.models = []) :
    ∀ entry ∈ last.globals.models, entry.2.definition.models = [] := by
  induction run with
  | nil => exact before
  | cons derived _ ih =>
      exact ih fun entry listed => ((derived.flat all).models entry listed).elim (before entry) id

end

end RouterClient.Typing
