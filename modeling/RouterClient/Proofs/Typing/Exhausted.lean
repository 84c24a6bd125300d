import RouterClient.Proofs.Typing.Registry
import RouterClient.Proofs.Typing.Valueless

/-! # Nothing left to declare

A node that is typed twice at one place may be declared twice, and the declaration that comes second is
not used.  Nothing is lost with it: once typing has gone through a node without a clash of names, whatever
is to be declared for the whole file there has been declared, and the second time it is only mentioned.
-/

namespace RouterClient.Typing

open Model (GlobalModels LocalModel Scope)
open Schema (Graph Kind NodeId)
open Code (Declaration)

/-- A node that can be mentioned by a name. -/
def State.Knows (state : State) (id : NodeId) : Prop :=
  (state.globals.globalName id).isSome = true ∨ (state.scope.lookup id).isSome = true

/-- Nothing is to be declared for the whole file when a node is typed below so many declarations, with a
wrapper around it that may declare it.  `known` are the nodes that can be mentioned by a name. -/
inductive Exhausted (graph : Graph) (settings : Settings) :
    (known : NodeId → Prop) → (depth : Nat) → (declared : Option NodeId) → NodeId → Prop where
  | known {known depth declared id} :
      (graph.kind id).isNominal = true → known id → Exhausted graph settings known depth declared id
  | valueless {known depth declared id} :
      graph.Valueless Set.univ id → Exhausted graph settings known depth declared id
  | primitive {known depth declared id p} :
      graph.kind id = .primitive p → Exhausted graph settings known depth declared id
  | optional {known depth declared id inner} :
      graph.kind id = .optional inner ∨ graph.kind id = .nullable inner →
      (∀ base above, unwrap? graph graph.size id declared = some (base, above) →
        Exhausted graph settings known depth above base) →
      Exhausted graph settings known depth declared id
  | collection {known depth declared id arrangement element} :
      graph.kind id = .collection arrangement element →
      Exhausted graph settings known depth (declaredBy graph id declared) element →
      Exhausted graph settings known depth declared id
  | transform {known depth declared id inner} :
      graph.kind id = .transform inner →
      Exhausted graph settings known depth (declaredBy graph id declared) inner →
      Exhausted graph settings known depth declared id
  | nested {known depth declared id} :
      (graph.kind id).isNominal = true →
      isGlobal settings (graph.label id) (declared.map graph.label) depth = false →
      (∀ below ∈ (graph.kind id).children,
        Exhausted graph settings (fun other => other = id ∨ known other) (depth + 1) none below) →
      Exhausted graph settings known depth declared id

/-- Nothing is declared for the whole file. -/
def Silent (events : List Event) : Prop :=
  ∀ id definition, .declared id definition ∉ events

section

variable {events more : List Event}

theorem Silent.nil : Silent [] :=
  fun _ _ => List.not_mem_nil

theorem Silent.append (first : Silent events) (second : Silent more) : Silent (events ++ more) := by
  intro id definition listed
  rcases List.mem_append.mp listed with listed | listed
  · exact first id definition listed
  · exact second id definition listed

theorem Silent.withdraw (silent : Silent events) (id : NodeId) :
    Silent (events ++ [.withdrawn id]) :=
  silent.append fun _ _ listed => by cases List.mem_singleton.mp listed

end

namespace Exhausted

variable {graph : Graph} {settings : Settings} {known more : NodeId → Prop} {depth : Nat}
  {declared above : Option NodeId} {id base inner : NodeId}

theorem mono (exhausted : Exhausted graph settings known depth declared id)
    (grows : ∀ other, known other → more other) :
    Exhausted graph settings more depth declared id := by
  induction exhausted generalizing more with
  | known nominal found => exact .known nominal (grows _ found)
  | valueless valueless => exact .valueless valueless
  | primitive kind => exact .primitive kind
  | optional kind _ ih => exact .optional kind fun base above chain => ih base above chain grows
  | collection kind _ ih => exact .collection kind (ih grows)
  | transform kind _ ih => exact .transform kind (ih grows)
  | nested nominal apart _ ih =>
      exact .nested nominal apart fun below listed => ih below listed fun other =>
        Or.imp_right (grows other)

theorem of_optional (exhausted : Exhausted graph settings known depth declared id)
    (kind : graph.kind id = .optional inner ∨ graph.kind id = .nullable inner)
    (chain : unwrap? graph graph.size id declared = some (base, above)) :
    Exhausted graph settings known depth above base := by
  cases exhausted with
  | optional _ inside => exact inside base above chain
  | valueless valueless => exact .valueless (valueless.of_leads (reaches_of_unwrap? chain))
  | known nominal | nested nominal =>
      rcases kind with kind | kind <;> simp [kind, Kind.isNominal] at nominal
  | primitive other | collection other | transform other =>
      rcases kind with kind | kind <;> simp [kind] at other

theorem of_collection {arrangement : Schema.Arrangement}
    (exhausted : Exhausted graph settings known depth declared id)
    (kind : graph.kind id = .collection arrangement inner) :
    Exhausted graph settings known depth (declaredBy graph id declared) inner := by
  cases exhausted with
  | collection other inside =>
      obtain ⟨_, rfl⟩ := Kind.collection.inj (kind.symm.trans other)
      exact inside
  | valueless valueless =>
      exact .valueless (valueless.refers (by simp [Graph.Refers, kind, Kind.children]))
  | known nominal | nested nominal => simp [kind, Kind.isNominal] at nominal
  | primitive other | transform other => simp [kind] at other
  | optional other => simp [kind] at other

theorem of_transform (exhausted : Exhausted graph settings known depth declared id)
    (kind : graph.kind id = .transform inner) :
    Exhausted graph settings known depth (declaredBy graph id declared) inner := by
  cases exhausted with
  | transform other inside =>
      obtain rfl := Kind.transform.inj (kind.symm.trans other)
      exact inside
  | valueless valueless =>
      exact .valueless (valueless.refers (by simp [Graph.Refers, kind, Kind.children]))
  | known nominal | nested nominal => simp [kind, Kind.isNominal] at nominal
  | primitive other | collection other => simp [kind] at other
  | optional other => simp [kind] at other

/-- A nominal node that cannot be mentioned is not declared for the whole file unless it has no value, and
nothing is in it that would be. -/
theorem of_nominal (exhausted : Exhausted graph settings known depth declared id)
    (nominal : (graph.kind id).isNominal = true) (unknown : ¬ known id) :
    (isGlobal settings (graph.label id) (declared.map graph.label) depth = true →
      graph.Valueless Set.univ id) ∧
    ∀ below ∈ (graph.kind id).children,
      Exhausted graph settings (fun other => other = id ∨ known other) (depth + 1) none below := by
  cases exhausted with
  | known _ found => exact absurd found unknown
  | valueless valueless =>
      exact ⟨fun _ => valueless, fun below listed => .valueless (valueless.refers listed)⟩
  | nested _ apart inside => exact ⟨fun whole => by simp [apart] at whole, inside⟩
  | primitive kind | collection kind | transform kind => simp [kind, Kind.isNominal] at nominal
  | optional kind => rcases kind with kind | kind <;> simp [kind, Kind.isNominal] at nominal

end Exhausted

section

variable {graph : Graph} {settings : Settings} {budget : Nat} {id : NodeId} {site : Site}
  {state middle next : State} {events : List Event} {verdict : Verdict} {scope : Scope}

theorem State.Knows.mono (knows : (state.within scope).Knows id)
    (evolves : Evolves graph state.globals next.globals) : (next.within scope).Knows id := by
  rcases knows with promoted | visible
  · obtain ⟨name, promoted⟩ := Option.isSome_iff_exists.mp promoted
    exact .inl (Option.isSome_of_eq_some (evolves.promoted id name promoted))
  · exact .inr visible

theorem Undeclared.unknown (fresh : Undeclared graph id state) : ¬ state.Knows id := by
  rintro (promoted | visible)
  · simp [fresh.unpromoted] at promoted
  · simp [fresh.hidden] at visible

/-- Inside a local model, the node of the model and all that is known around it are known. -/
theorem State.shown_knows (state : State) (id : NodeId) (proposal : String) {other : NodeId} :
    ((state.shown id proposal).within (state.scope.insert id (state.nameFor id proposal))).Knows other ↔
      other = id ∨ state.Knows other := by
  have promoted : (state.shown id proposal).globals.globalName other = state.globals.globalName other :=
    state.named_globalName id other proposal
  simp only [Knows, within_globals, within_scope, promoted, Scope.lookup_insert]
  by_cases same : id = other
  · simp [same]
  · simp [same, Ne.symm (a := id) (b := other) same]

theorem State.Knows.of_insert {name : String} {other : NodeId}
    (knows : (state.within (scope.insert id name)).Knows other) :
    other = id ∨ (state.within scope).Knows other := by
  rcases knows with promoted | visible
  · exact .inr (.inl promoted)
  · rw [State.within_scope, Scope.lookup_insert] at visible
    split at visible
    · next same => exact .inl same.symm
    · exact .inr (.inr visible)

theorem IsMember.site_eq {below : NodeId} {depth : Nat}
    (member : IsMember graph id depth below site) : site.depth = depth + 1 ∧ site.declared = none := by
  cases member with
  | field | option => exact ⟨rfl, rfl⟩

/-! ## The second time -/

/-- Where nothing is left to declare, nothing is declared. -/
def Abstains (graph : Graph) (settings : Settings) (id : NodeId) (site : Site) (state : State)
    (events : List Event) : Prop :=
  Unseen graph Set.univ id state →
    Exhausted graph settings state.Knows site.depth site.declared id → Silent events

theorem Declares.silent {name : String} {description : Option String} {depth : Nat}
    {definition : Option Declaration}
    (below : ∀ {id site state events verdict next},
      Derives graph settings budget id site state events verdict next →
      Abstains graph settings id site state events)
    (declares : Declares graph settings (Derives graph settings budget) id name description scope
      depth state events definition next)
    (outside : ∀ other, other ≠ id → Relation.ReflTransGen graph.Refers id other →
      graph.Valueless Set.univ other → (state.within scope).Hides other)
    (exhausted : ∀ child ∈ (graph.kind id).children,
      Exhausted graph settings (state.within scope).Knows (depth + 1) none child) :
    Silent events := by
  have invariant := declares.unseen_invariant (fun derived unseen => derived.respects unseen) outside
    (I := fun _ _ log last => Silent log ∧ Evolves graph state.globals last.globals)
    ⟨.nil, .refl graph _⟩ ?_
  · obtain ⟨⟨_, ⟨silent, _⟩, _⟩, _⟩ := invariant
    exact silent
  intro _ _ _ log child site middle events verdict next failure location member unseen derived _ held
  obtain ⟨silent, evolves⟩ := held
  obtain ⟨deeper, undeclared⟩ := member.site_eq
  refine ⟨silent.append (below derived unseen ?_), ?_⟩
  · rw [deeper, undeclared]
    exact (exhausted child member.child).mono fun other knows => knows.mono evolves
  · rw [State.note_globals]
    exact evolves.trans derived.evolves

theorem Derives.silent (derived : Derives graph settings budget id site state events verdict next) :
    Abstains graph settings id site state events := by
  refine Derives.induction (P := fun id site state events _ _ =>
    Abstains graph settings id site state events) (fun _ _ => .nil)
    (fun abstains unseen exhausted => abstains unseen.enter exhausted) ?_ derived
  intro budget id site state events verdict next below step unseen exhausted
  -- A node that is declared for the whole file although nothing is left to declare has no value.
  have hollow (fresh : Undeclared graph id state)
      (whole : isGlobal settings (graph.label id) (site.declared.map graph.label) site.depth = true) :
      graph.Valueless Set.univ id :=
    (exhausted.of_nominal fresh.nominal fresh.unknown).1 whole
  cases step with
  | primitive _ | empty _ | unsupported _ | endless _ _ | promoted _ _ | visible _ _ _ => exact .nil
  | optional kind chain inner =>
      have reaches := Graph.refers_of_leads (reaches_of_unwrap? chain)
      exact below inner (unseen.of_reaches reaches) (exhausted.of_optional kind chain)
  | collection kind inner =>
      have leads := Graph.leads_of_collection kind
      exact below inner (unseen.of_reaches (.single leads.refers)) (exhausted.of_collection kind)
  | transform kind inner =>
      have leads := Graph.leads_of_transform kind
      exact below inner (unseen.of_reaches (.single leads.refers)) (exhausted.of_transform kind)
  | accepted fresh whole same declares _ | collided fresh whole same declares _ =>
      subst same
      have respects := declares.respects (fun derived unseen => derived.respects unseen)
        (unseen.reserved _)
      exact absurd (respects.1 (hollow fresh whole)) nofun
  | void fresh whole same declares =>
      subst same
      refine (declares.silent below (unseen.reserved _) fun child listed => ?_).withdraw id
      exact .valueless ((hollow fresh whole).refers listed)
  | nested fresh _ same declares | hollow fresh _ same declares =>
      subst same
      refine declares.silent below (unseen.shown _) fun child listed => ?_
      have exhausted := (exhausted.of_nominal fresh.nominal fresh.unknown).2 child listed
      exact exhausted.mono fun other knows => (state.shown_knows id _).mpr knows

/-! ## The first time -/

variable {spared : Set Failure}

/-- Once its members have been typed, nothing is left to declare in a declaration. -/
theorem Declares.exhausts {name : String} {description : Option String} {depth : Nat}
    {definition : Option Declaration}
    (below : ∀ {id site state events verdict next},
      Derives graph settings budget id site state events verdict next → next.Clean spared →
      (∀ failure, verdict = .error failure → failure ∈ spared) →
      Exhausted graph settings (next.within state.scope).Knows site.depth site.declared id)
    (declares : Declares graph settings (Derives graph settings budget) id name description scope
      depth state events definition next)
    (clean : next.Clean spared) :
    ∀ child ∈ (graph.kind id).children,
      Exhausted graph settings (next.within scope).Knows (depth + 1) none child := by
  have invariant := declares.joins_invariant
    (I := fun done _ _ last => last.Clean spared → ∀ child ∈ done,
      Exhausted graph settings (last.within scope).Knows (depth + 1) none child) (fun _ => nofun) ?_
  · obtain ⟨_, exhausted, _⟩ := invariant
    exact exhausted clean
  intro done _ _ _ child site middle events verdict next failure location member derived joins held
    clean
  obtain ⟨clean, noted⟩ := clean.of_note
  obtain ⟨deeper, undeclared⟩ := member.site_eq
  have kept (other : NodeId) (knows : (next.within scope).Knows other) :
      (((next.within middle.scope).note location failure).within scope).Knows other := by
    simpa only [State.Knows, State.within_globals, State.note_globals, State.within_scope] using knows
  rw [List.forall_mem_append, List.forall_mem_singleton]
  constructor
  · intro earlier listed
    refine (held (clean.of_prefix derived.diagnostics_prefix) earlier listed).mono fun other knows => ?_
    exact kept other (knows.mono derived.evolves)
  · have last := below derived clean (by
      rintro _ rfl
      cases joins with
      | failed => exact noted _ rfl)
    rw [deeper, undeclared] at last
    exact last.mono kept

/-- Where typing has gone through a node without a clash of names, nothing is left to declare. -/
theorem Derives.exhausts (spares : Spares Set.univ spared)
    (derived : Derives graph settings budget id site state events verdict next)
    (clean : next.Clean spared) (noted : ∀ failure, verdict = .error failure → failure ∈ spared) :
    Exhausted graph settings (next.within state.scope).Knows site.depth site.declared id := by
  refine Derives.induction (P := fun id site state _ verdict next => next.Clean spared →
    (∀ failure, verdict = .error failure → failure ∈ spared) →
    Exhausted graph settings (next.within state.scope).Knows site.depth site.declared id)
    ?_ (fun exhausted => exhausted) ?_ derived clean noted
  · exact fun _ noted => absurd (noted _ rfl) (spares.limit _)
  intro budget id site state events verdict next below step clean noted
  have promoted {known : String} (nominal : (graph.kind id).isNominal = true)
      (found : next.globals.globalName id = some known) :
      Exhausted graph settings (next.within state.scope).Knows site.depth site.declared id :=
    .known nominal (.inl (Option.isSome_of_eq_some found))
  cases step with
  | primitive kind => exact .primitive kind
  | empty kind => exact .valueless (.empty kind)
  | unsupported kind => exact .valueless (.unsupported kind (Set.mem_univ _))
  | endless _ _ => exact absurd (noted _ rfl) (spares.limit _)
  | optional kind chain inner =>
      refine .optional kind fun base above same => ?_
      cases chain.symm.trans same
      exact below inner clean (spared_of_map noted)
  | collection kind inner => exact .collection kind (below inner clean (spared_of_map noted))
  | transform kind inner => exact .transform kind (below inner clean noted)
  | promoted nominal found => exact promoted nominal ((State.named_globalName _ _ _ _).trans found)
  | visible nominal _ found => exact .known nominal (.inr (Option.isSome_of_eq_some found))
  | accepted fresh _ _ _ registered =>
      exact promoted fresh.nominal (GlobalModels.accepts_of_register registered).own
  | collided _ _ _ _ registered =>
      obtain ⟨rfl, _⟩ := GlobalModels.register_error registered
      exact absurd (noted _ rfl) (spares.collision _)
  | void _ _ _ declares | hollow _ _ _ declares =>
      exact .valueless (declares.valueless_of_clean spares
        (fun derived => derived.valueless_of_untyped spares) clean)
  | nested fresh apart same declares =>
      subst same
      refine .nested fresh.nominal apart fun child listed => ?_
      exact (declares.exhausts below clean child listed).mono fun _ => State.Knows.of_insert

/-! ## Local models -/

/-- A local model is declared below so many declarations, and nothing else happens between two states. -/
inductive Nests (graph : Graph) (settings : Settings) (depth : Nat) (state : State)
    (events : List Event) (model : LocalModel Declaration) (next : State) : Prop where
  | of {budget : Nat} {description : Option String} {proposal : String} {inner last : State} :
      inner.globals = state.globals → inner.scope = state.scope →
      last.globals = next.globals → last.diagnostics = next.diagnostics →
      model.name = inner.nameFor model.owner proposal →
      Declares graph settings (Derives graph settings budget) model.owner model.name description
        (inner.scope.insert model.owner model.name) depth (inner.shown model.owner proposal) events
        (some model.definition) last →
      Nests graph settings depth state events model next

/-- A model that is to be nested was declared on the way, under wrappers and collections. -/
theorem Derives.nests {typed : Typed} {model : LocalModel Declaration}
    (derived : Derives graph settings budget id site state events verdict next)
    (given : verdict = .ok (some typed)) (nested : typed.model = some model) :
    Relation.ReflTransGen graph.Refers id model.owner ∧
      Nests graph settings site.depth state events model next := by
  refine Derives.induction (P := fun id site state events verdict next => ∀ typed,
    verdict = .ok (some typed) → typed.model = some model →
    Relation.ReflTransGen graph.Refers id model.owner ∧
      Nests graph settings site.depth state events model next) nofun ?_ ?_ derived typed given nested
  · intro _ _ _ _ _ _ inside typed given nested
    obtain ⟨reaches, globals, scope, globals', diagnostics, named, declares⟩ := inside typed given nested
    exact ⟨reaches, globals, scope, globals', diagnostics, named, declares⟩
  intro budget id site state events verdict next below step typed given nested
  cases step with
  | empty _ | unsupported _ | endless _ _ | collided _ _ _ _ _ | void _ _ _ _ | hollow _ _ _ _ =>
      cases given
  | primitive _ | promoted _ _ | visible _ _ _ | accepted _ _ _ _ _ =>
      cases given
      cases nested
  | optional kind chain inner =>
      rename_i verdict
      rcases verdict with failure | ⟨_ | typed⟩
      · cases given
      · cases given
      · cases given
        obtain ⟨reaches, nests⟩ := below inner typed rfl ((Typed.mark_model _ _).symm.trans nested)
        exact ⟨(Graph.refers_of_leads (reaches_of_unwrap? chain)).trans reaches, nests⟩
  | collection kind inner =>
      rename_i verdict
      have leads := Graph.leads_of_collection kind
      rcases verdict with failure | ⟨_ | typed⟩
      · cases given
      · cases given
      · cases given
        obtain ⟨reaches, nests⟩ := below inner typed rfl nested
        exact ⟨.head leads.refers reaches, nests⟩
  | transform kind inner =>
      have leads := Graph.leads_of_transform kind
      obtain ⟨reaches, nests⟩ := below inner typed given nested
      exact ⟨.head leads.refers reaches, nests⟩
  | nested fresh _ same declares =>
      cases given
      cases nested
      exact ⟨.refl, rfl, rfl, rfl, rfl, same, declares⟩

/-- A model that is to be nested leaves nothing to declare where it was declared. -/
theorem Derives.exhausts_nested {typed : Typed} {model : LocalModel Declaration}
    (spares : Spares Set.univ spared)
    (derived : Derives graph settings budget id site state events (.ok (some typed)) next)
    (nested : typed.model = some model) (clean : next.Clean spared) :
    ∀ child ∈ (graph.kind model.owner).children,
      Exhausted graph settings (fun other => other = model.owner ∨ (next.within state.scope).Knows other)
        (site.depth + 1) none child := by
  obtain ⟨_, _, scope, globals, diagnostics, _, declares⟩ := derived.nests rfl nested
  intro child listed
  refine (declares.exhausts (Derives.exhausts spares) (fun diagnostic reported =>
    clean diagnostic (diagnostics ▸ reported)) child listed).mono fun other knows => ?_
  rw [scope] at knows
  have knows := State.Knows.of_insert knows
  simpa only [State.Knows, State.within_globals, State.within_scope, globals] using knows

/-- A model that is nested where nothing is left to declare was declared in silence. -/
theorem Derives.silent_nested {typed : Typed} {model : LocalModel Declaration}
    (derived : Derives graph settings budget id site state events (.ok (some typed)) next)
    (nested : typed.model = some model) (unseen : Unseen graph Set.univ id state)
    (exhausted : ∀ child ∈ (graph.kind model.owner).children,
      Exhausted graph settings (fun other => other = model.owner ∨ state.Knows other) (site.depth + 1)
        none child) : Silent events := by
  obtain ⟨reaches, nests⟩ := derived.nests rfl nested
  obtain @⟨_, _, _, inner, _, globals, scope, _, _, named, declares⟩ := nests
  have hidden : Unseen graph Set.univ model.owner inner := by
    intro other reached valueless
    have found := unseen.of_reaches reaches other reached valueless
    exact ⟨globals ▸ found.unpromoted, scope ▸ found.hidden⟩
  refine declares.silent Derives.silent (hidden.shown _) fun child listed => ?_
  refine (exhausted child listed).mono fun other knows => ?_
  rw [named]
  refine (inner.shown_knows model.owner _).mpr ?_
  simpa only [State.Knows, globals, scope] using knows

end

end RouterClient.Typing
