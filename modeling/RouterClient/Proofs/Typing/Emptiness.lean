import RouterClient.Proofs.Typing.Registry
import RouterClient.Proofs.Typing.Valueless

/-! # What is kept does not depend on the way there

In a run that leaves nothing out and reports nothing, a node comes to nothing exactly when it stands for
no value.  So the members of every declaration are those whose nodes have one, whichever way led to the
declaration and whatever was being declared around it.
-/

namespace RouterClient.Typing

open Model (LocalModel LocalModels Scope)
open Schema (NodeId Graph Kind)
open Code (Body Declaration TypeExpr family)

/-- A type that mentions what a node comes down to, if that is a nominal node. -/
def Suits (graph : Graph) (id : NodeId) (type : TypeExpr) : Prop :=
  ∀ b, ComesDownTo graph id b → type.owner? = some b

open Classical in
/-- The nodes among some that stand for a value. -/
noncomputable def valued (graph : Graph) (ids : List NodeId) : List NodeId :=
  ids.filter fun id => ¬ graph.Valueless ∅ id

/-- A model has one member for each child of its node that stands for a value, in order. -/
def Retains (graph : Graph) (model : LocalModel Declaration) : Prop :=
  List.Forall₂ (Suits graph) (valued graph (graph.kind model.owner).children) model.definition.types

/-- A model and the models nested in it retain their members. -/
def AllRetain (graph : Graph) (model : LocalModel Declaration) : Prop :=
  ∀ other ∈ family model, Retains graph other

/-- A global model, seen as a model of its node. -/
def asModel (entry : String × Model.GlobalModel Declaration) : LocalModel Declaration :=
  ⟨entry.2.owner, entry.1, entry.2.definition⟩

/-- The models that are declared for the whole file after a step retain their members, as far as they
were not there before it. -/
def AddsRetaining (graph : Graph) (state next : State) : Prop :=
  ∀ entry ∈ next.globals.models, entry ∈ state.globals.models ∨ AllRetain graph (asModel entry)

/-- The body of a declaration under way retains the members that have been typed. -/
structure BodyRetains (graph : Graph) (done : List NodeId) (body : Body) : Prop where
  types : List.Forall₂ (Suits graph) (valued graph done) body.types
  models : ∀ model ∈ body.models, AllRetain graph model

section

variable {graph : Graph} {settings : Settings} {J : Judgement} {budget : Nat} {id : NodeId}
  {site : Site} {state middle next : State} {events : List Event} {verdict : Verdict}
  {done : List NodeId} {body : Body}

theorem valued_append (first second : List NodeId) :
    valued graph (first ++ second) = valued graph first ++ valued graph second :=
  List.filter_append _ _

theorem valued_of_valueless (valueless : graph.Valueless ∅ id) : valued graph [id] = [] := by
  simp [valued, valueless]

theorem valued_of_not_valueless (value : ¬ graph.Valueless ∅ id) : valued graph [id] = [id] := by
  simp [valued, value]

theorem AddsRetaining.refl (graph : Graph) (state : State) : AddsRetaining graph state state :=
  fun _ => .inl

theorem AddsRetaining.trans (first : AddsRetaining graph state middle)
    (second : AddsRetaining graph middle next) : AddsRetaining graph state next := by
  intro entry held
  rcases second entry held with held | retain
  · exact first entry held
  · exact .inr retain

theorem BodyRetains.skip (retains : BodyRetains graph done body)
    (valueless : graph.Valueless ∅ id) : BodyRetains graph (done ++ [id]) body where
  types := by
    rw [valued_append, valued_of_valueless valueless, List.append_nil]
    exact retains.types
  models := retains.models

theorem BodyRetains.keep {typed : Typed} {type : TypeExpr} {models : LocalModels Declaration}
    (retains : BodyRetains graph done body) (value : ¬ graph.Valueless ∅ id)
    (suits : Suits graph id type) (absorbed : body.models.absorb? typed.model = .ok models)
    (nested : ∀ model, typed.model = some model → AllRetain graph model) :
    BodyRetains graph (done ++ [id]) ⟨body.types ++ [type], models⟩ where
  types := by
    rw [valued_append, valued_of_not_valueless value]
    exact List.rel_append retains.types (.cons suits .nil)
  models model held := by
    rcases LocalModels.mem_of_absorb? absorbed held with held | same
    · exact retains.models model held
    · exact nested model same

/-- What is known of a step that leaves nothing out. -/
structure Retaining (graph : Graph) (state : State) (verdict : Verdict) (next : State) : Prop where
  adds : AddsRetaining graph state next
  nested : ∀ typed model, verdict = .ok (some typed) → typed.model = some model →
    AllRetain graph model

theorem Retaining.of_whole (same : next.globals.models = state.globals.models)
    (whole : ∀ typed, verdict = .ok (some typed) → typed.model = none) :
    Retaining graph state verdict next where
  adds _ held := .inl (same ▸ held)
  nested typed _ outcome nested := absurd ((whole typed outcome).symm.trans nested) nofun

theorem Retaining.map {f : Typed → Typed} (keeps : ∀ typed, (f typed).model = typed.model)
    (retaining : Retaining graph state verdict next) :
    Retaining graph state (verdict.map (Option.map f)) next where
  adds := retaining.adds
  nested typed model outcome nested := by
    rcases verdict with failure | ⟨_ | inner⟩
    · cases outcome
    · cases outcome
    · cases outcome
      exact retaining.nested inner model rfl ((keeps inner).symm.trans nested)

/-- A declaration whose members are told apart by whether they have a value retains those that do. -/
theorem Declares.retains {name : String} {description : Option String} {scope : Scope} {depth : Nat}
    {definition : Option Declaration}
    (below : ∀ {id site state events verdict next},
      Derives graph settings budget id site state events verdict next → Unseen graph ∅ id state →
      next.Clean ∅ → (∀ failure, verdict ≠ .error failure) → Retaining graph state verdict next)
    (declares : Declares graph settings (Derives graph settings budget) id name description scope
      depth state events definition next)
    (outside : ∀ other, other ≠ id → Relation.ReflTransGen graph.Refers id other →
      graph.Valueless ∅ other → (state.within scope).Hides other)
    (clean : next.Clean ∅) :
    AddsRetaining graph state next ∧
      ∀ declaration, definition = some declaration → AllRetain graph ⟨id, name, declaration⟩ := by
  have invariant := declares.unseen_invariant (fun derived unseen => derived.respects unseen) outside
    (I := fun done body _ last => last.Clean ∅ →
      AddsRetaining graph state last ∧ BodyRetains graph done body)
    (fun _ => ⟨.refl graph state, .nil, nofun⟩) ?_
  · obtain ⟨⟨body, held, declared, _, _⟩, _⟩ := invariant
    obtain ⟨adds, retains⟩ := held clean
    refine ⟨adds, fun declaration same => Code.forall_family.mpr ?_⟩
    obtain ⟨rfl, _⟩ := declared declaration same
    exact ⟨retains.types, retains.models⟩
  intro done before after log child site middle events verdict next failure location _ unseen derived
    joins held clean
  obtain ⟨clean, noted⟩ := clean.of_note
  obtain ⟨adds, retains⟩ := held (clean.of_prefix derived.diagnostics_prefix)
  cases joins with
  | absent =>
      have valueless := derived.valueless_of_untyped .empty clean nofun nofun
      exact ⟨adds.trans (below derived unseen clean nofun).adds, retains.skip valueless⟩
  | failed | refused => exact absurd (noted _ rfl) (Set.notMem_empty _)
  | kept based absorbed =>
      have retaining := below derived unseen clean nofun
      refine ⟨adds.trans retaining.adds, retains.keep ?_ ?_ absorbed fun model => ?_⟩
      · exact fun valueless => (derived.respects unseen).untyped valueless _ rfl
      · intro b down
        obtain ⟨name, binding, mention, _⟩ := derived.resolves b _ down rfl
        simp only [TypeExpr.owner?, based, mention]
      · exact retaining.nested _ model rfl

/-- What a run declares retains its members when nothing is left out. -/
theorem Derives.retains (derived : Derives graph settings budget id site state events verdict next)
    (unseen : Unseen graph ∅ id state) (clean : next.Clean ∅)
    (succeeds : ∀ failure, verdict ≠ .error failure) : Retaining graph state verdict next := by
  refine Derives.induction (P := fun id _ state _ verdict next => Unseen graph ∅ id state →
    next.Clean ∅ → (∀ failure, verdict ≠ .error failure) → Retaining graph state verdict next)
    ?_ ?_ ?_ derived unseen clean succeeds
  · exact fun _ _ succeeds => absurd rfl (succeeds _)
  · intro _ _ _ _ _ _ retaining unseen clean succeeds
    have held := retaining unseen.enter clean succeeds
    exact ⟨held.adds, held.nested⟩
  intro budget id site state events verdict next below step unseen clean succeeds
  cases step with
  | primitive _ =>
      exact .of_whole rfl fun _ outcome => by cases outcome; rfl
  | empty _ => exact .of_whole rfl nofun
  | unsupported _ | endless _ _ | collided _ _ _ _ _ => exact absurd rfl (succeeds _)
  | promoted _ _ | visible _ _ _ =>
      exact .of_whole (State.named_models _ _ _) (by rintro _ ⟨⟩; rfl)
  | optional kind chain inner =>
      rename_i verdict
      have reaches := Graph.refers_of_leads (reaches_of_unwrap? chain)
      refine (below inner (unseen.of_reaches reaches) clean ?_).map (Typed.mark_model _)
      rintro failure rfl
      exact succeeds failure rfl
  | collection kind inner =>
      rename_i verdict
      have leads := Graph.leads_of_collection kind
      refine (below inner (unseen.of_reaches (.single leads.refers)) clean ?_).map
        (Typed.collect_model _)
      rintro failure rfl
      exact succeeds failure rfl
  | transform kind inner =>
      have leads := Graph.leads_of_transform kind
      exact below inner (unseen.of_reaches (.single leads.refers)) clean succeeds
  | accepted fresh _ same declares registered =>
      subst same
      obtain ⟨adds, retain⟩ := declares.retains below (unseen.reserved _) clean
      refine ⟨fun entry held => ?_, by rintro _ _ ⟨⟩ ⟨⟩⟩
      rcases (Model.GlobalModels.accepts_of_register registered).added entry held with held | rfl
      · have before := adds entry held
        rwa [State.reserved_models] at before
      · exact .inr (retain _ rfl)
  | void fresh _ same declares =>
      subst same
      obtain ⟨adds, _⟩ := declares.retains below (unseen.reserved _) clean
      refine ⟨fun entry held => ?_, nofun⟩
      have before := adds entry held
      rwa [State.reserved_models] at before
  | nested fresh _ same declares =>
      subst same
      obtain ⟨adds, retain⟩ := declares.retains below (unseen.shown _) clean
      refine ⟨fun entry held => ?_, ?_⟩
      · have before := adds entry held
        rwa [State.shown_models] at before
      · rintro _ _ ⟨⟩ ⟨⟩
        exact retain _ rfl
  | hollow fresh _ same declares =>
      subst same
      obtain ⟨adds, _⟩ := declares.retains below (unseen.shown _) clean
      refine ⟨fun entry held => ?_, nofun⟩
      have before := adds entry held
      rwa [State.shown_models] at before

end

/-- Calls on one state, none of which fails, with their outcomes.  Each is made in a fresh scope or in
one that a call before it has given back. -/
inductive Session (graph : Graph) (settings : Settings) : List (Call × Outcome) → State → Prop where
  | start : Session graph settings [] {}
  | call {past state id position outcome next} :
      Session graph settings past state →
      (position.scope = ({} : Scope) ∨ ∃ earlier ∈ past, position.scope = earlier.2.scope) →
      typeAt graph settings id position state = .ok outcome next →
      Session graph settings (past ++ [(⟨id, position⟩, outcome)]) next

section

variable {graph : Graph} {settings : Settings} {past : List (Call × Outcome)} {state next : State}

theorem typeAt_ok {id : NodeId} {position : Position} {outcome : Outcome}
    (run : typeAt graph settings id position state = .ok outcome next) :
    ∃ events last, Derives graph settings maxDepth id position.toSite
        (state.within position.scope) events (.ok outcome.typed) last ∧
      outcome.scope = last.scope ∧ next = last.within state.scope := by
  obtain ⟨events, verdict, last, derived, ran⟩ := typeAt_derives graph settings id position state
  rw [run] at ran
  rcases verdict with failure | typed
  · cases ran
  · cases ran
    exact ⟨events, last, derived, rfl, rfl⟩

/-- What is known of the calls of a session. -/
structure ToldApart (graph : Graph) (past : List (Call × Outcome)) (state : State) : Prop where
  unpromoted : ∀ id, graph.Valueless ∅ id → state.globals.globalName id = none
  hidden : ∀ made ∈ past, ∀ id, graph.Valueless ∅ id → made.2.scope.lookup id = none
  typed : ∀ made ∈ past, made.2.typed = none ↔ graph.Valueless ∅ made.1.id
  nested : ∀ made ∈ past, ∀ typed model, made.2.typed = some typed → typed.model = some model →
    AllRetain graph model
  declared : ∀ entry ∈ state.globals.models, AllRetain graph (asModel entry)

theorem Session.toldApart (session : Session graph settings past state)
    (silent : state.diagnostics = []) : ToldApart graph past state := by
  induction session with
  | start =>
      exact ⟨fun _ _ => rfl, nofun, nofun, nofun, nofun⟩
  | @call past state id position outcome next _ origin run ih =>
      obtain ⟨events, last, derived, scope, rfl⟩ := typeAt_ok run
      have clean : last.Clean ∅ := by
        intro diagnostic reported
        have nothing : last.diagnostics = [] := silent
        simp [nothing] at reported
      have before := ih (List.prefix_nil.mp (silent ▸ derived.diagnostics_prefix))
      have hides (id : NodeId) (valueless : graph.Valueless ∅ id) :
          (state.within position.scope).Hides id := by
        refine ⟨before.unpromoted id valueless, ?_⟩
        rcases origin with fresh | ⟨earlier, made, given⟩
        · rw [State.within_scope, fresh, Scope.lookup_empty]
        · rw [State.within_scope, given]
          exact before.hidden earlier made id valueless
      have unseen : Unseen graph ∅ id (state.within position.scope) :=
        fun id _ valueless => hides id valueless
      have respects := derived.respects unseen
      have retaining := derived.retains unseen clean nofun
      have last_made {made : Call × Outcome} (listed : made ∈ past ++ [(⟨id, position⟩, outcome)]) :
          made ∈ past ∨ made = (⟨id, position⟩, outcome) := by
        simpa using listed
      refine ⟨fun id valueless => ?_, fun made listed => ?_, fun made listed => ?_,
        fun made listed => ?_, fun entry held => ?_⟩
      · exact respects.unpromoted id valueless (hides id valueless).unpromoted
      · rcases last_made listed with listed | rfl
        · exact before.hidden made listed
        · intro id valueless
          rw [scope]
          exact respects.hidden id valueless (hides id valueless).hidden
      · rcases last_made listed with listed | rfl
        · exact before.typed made listed
        · rw [← derived.untyped_iff .empty unseen clean nofun]
          cases outcome.typed <;> simp
      · rcases last_made listed with listed | rfl
        · exact before.nested made listed
        · intro typed model outcome
          exact retaining.nested typed model (congrArg Except.ok outcome)
      · rcases retaining.adds entry held with held | retain
        · exact before.declared entry held
        · exact retain

/-- Over any calls on one state of which none fails and none reports anything, in fresh scopes or in
scopes that calls have given back: a call comes to nothing if and only if its node stands for no value,
and every model that a call gives back or declares has one member, in order, for each child of its node
that stands for a value. -/
theorem untyped_iff_valueless (session : Session graph settings past state)
    (silent : state.diagnostics = []) :
    (∀ made ∈ past, made.2.typed = none ↔ graph.Valueless ∅ made.1.id) ∧
    (∀ made ∈ past, ∀ typed model, made.2.typed = some typed → typed.model = some model →
      ∀ other ∈ family model, Retains graph other) ∧
    ∀ entry ∈ state.globals.models,
      ∀ other ∈ family ⟨entry.2.owner, entry.1, entry.2.definition⟩, Retains graph other := by
  have known := session.toldApart silent
  exact ⟨known.typed, known.nested, known.declared⟩

/-- Whether a step succeeds, with a result and a state that pass a test. -/
def endsIn {ε σ α : Type} (result : EStateM.Result ε σ α) (test : α → σ → Bool) : Bool :=
  match result with
  | .ok value next => test value next
  | .error _ _ => false

theorem exists_of_endsIn {ε σ α : Type} {result : EStateM.Result ε σ α}
    {test : α → σ → Bool} (passed : endsIn result test = true) :
    ∃ value next, result = .ok value next ∧ test value next = true := by
  cases result with
  | ok value next => exact ⟨value, next, rfl, passed⟩
  | error => cases passed

/-- A union that contains nothing but itself, one that has no value, and an object that holds both. -/
def loopGraph : Graph where
  nodes := #[
    { kind := .primitive .string },
    { kind := .union [⟨2⟩], label := { name := some "Loop", isGlobal := true } },
    { kind := .optional ⟨1⟩ },
    { kind := .empty },
    { kind := .union [⟨3⟩, ⟨5⟩], label := { name := some "Hollow" } },
    { kind := .enumeration [.bool true, .null] },
    { kind := .object [("loop", ⟨1⟩), ("hollow", ⟨4⟩), ("text", ⟨0⟩)] }]

/-- The object has a type, and where its scope is given back the union without a value has none. -/
theorem loopGraph_told_apart :
    ∃ past state, Session loopGraph {} past state ∧ state.diagnostics = [] ∧
      past.map (fun made => (made.1.id.index, made.2.typed.isSome)) = [(6, true), (4, false)] ∧
      (∀ made ∈ past, made.2.typed = none ↔ loopGraph.Valueless ∅ made.1.id) ∧
      ∀ made ∈ past, ∀ typed model, made.2.typed = some typed → typed.model = some model →
        ∀ other ∈ family model, Retains loopGraph other := by
  have ran : endsIn (typeAt loopGraph {} ⟨6⟩ { fallback := "Root", scope := {} } {})
      (fun first middle =>
        endsIn (typeAt loopGraph {} ⟨4⟩ { fallback := "More", scope := first.scope } middle)
          (fun second last =>
            first.typed.isSome && !second.typed.isSome && last.diagnostics.isEmpty)) = true := by
    decide +kernel
  obtain ⟨first, middle, opened, ran⟩ := exists_of_endsIn ran
  obtain ⟨second, last, closed, ran⟩ := exists_of_endsIn ran
  simp only [Bool.and_eq_true, Bool.not_eq_eq_eq_not, Bool.not_true, List.isEmpty_iff] at ran
  obtain ⟨⟨some, none⟩, silent⟩ := ran
  have session := Session.call (.call .start (.inl rfl) opened)
    (.inr ⟨_, List.mem_singleton_self _, rfl⟩) closed
  have told := untyped_iff_valueless session silent
  exact ⟨_, last, session, silent, by simp [some, none], told.1, told.2.1⟩

end

end RouterClient.Typing
