import RouterClient.Proofs.Typing.Containment
import RouterClient.Proofs.Typing.Drafts
import RouterClient.Proofs.Typing.ScopeEffect

/-! # Nodes that stand for no value

Which nodes stand for no value is a least set: a union whose only option is itself has a value, since
nothing shows that it has none.  Typing takes a node that is being declared for one with a value, long
before it knows.  The two agree, because a node of the least set never contains itself, so typing never
comes back to it while its own declaration is under way.
-/

namespace RouterClient.Schema

theorem Kind.children_of_inside? {kind : Kind} {inner : NodeId} (inside : kind.inside? = some inner) :
    kind.children = [inner] := by
  cases kind <;> simp_all [inside?, children]

namespace Graph

/-- A node and one that stands directly in it. -/
def Refers (graph : Graph) (id below : NodeId) : Prop :=
  below ∈ (graph.kind id).children

theorem Leads.refers {graph : Graph} {id inner : NodeId} (leads : graph.Leads id inner) :
    graph.Refers id inner :=
  leads.2

theorem refers_of_leads {graph : Graph} {id below : NodeId}
    (reaches : Relation.ReflTransGen graph.Leads id below) :
    Relation.ReflTransGen graph.Refers id below :=
  Relation.ReflTransGen.mono (fun _ _ => Leads.refers) _ _ reaches

/-- The nodes that stand for no value, when a schema that no Swift type stands for counts as having none
if its name is in `bare`. -/
inductive Valueless (graph : Graph) (bare : Set String) : NodeId → Prop where
  | empty {id} : graph.kind id = .empty → Valueless graph bare id
  | unsupported {id typeName} :
      graph.kind id = .unsupported typeName → typeName ∈ bare → Valueless graph bare id
  | inside {id inner} :
      (graph.kind id).inside? = some inner → Valueless graph bare inner → Valueless graph bare id
  | enumeration {id values} :
      graph.kind id = .enumeration values → (∀ value ∈ values, value.string? = none) →
      Valueless graph bare id
  | literal {id value} :
      graph.kind id = .literal value → value.string? = none → Valueless graph bare id
  | union {id options} :
      graph.kind id = .union options → (∀ option ∈ options, Valueless graph bare option) →
      Valueless graph bare id

namespace Valueless

variable {graph : Graph} {bare : Set String} {id below other : NodeId}

theorem refers (valueless : graph.Valueless bare id) (refers : graph.Refers id below) :
    graph.Valueless bare below := by
  cases valueless with
  | empty kind | unsupported kind _ | enumeration kind _ | literal kind _ =>
      simp [Refers, kind, Kind.children] at refers
  | inside inside valueless =>
      rw [Refers, Kind.children_of_inside? inside, List.mem_singleton] at refers
      exact refers ▸ valueless
  | union kind options =>
      rw [Refers, kind] at refers
      exact options below refers

theorem not_object {fields : List (String × NodeId)} (kind : graph.kind id = .object fields) :
    ¬ graph.Valueless bare id := by
  intro valueless
  cases valueless <;> simp_all [Kind.inside?]

theorem of_leads (valueless : graph.Valueless bare id)
    (reaches : Relation.ReflTransGen graph.Leads id other) : graph.Valueless bare other := by
  induction reaches with
  | refl => exact valueless
  | tail _ leads ih => exact ih.refers leads.refers

theorem of_reached (valueless : graph.Valueless bare other)
    (reaches : Relation.ReflTransGen graph.Leads id other) : graph.Valueless bare id := by
  induction reaches using Relation.ReflTransGen.head_induction_on with
  | refl => exact valueless
  | head leads _ ih => exact .inside (leads_iff.mp leads) ih

/-- What stands in a node of the least set was there before it. -/
theorem acc (valueless : graph.Valueless bare id) :
    Acc (fun below id => graph.Refers id below) id := by
  induction valueless with
  | empty kind | unsupported kind _ | enumeration kind _ | literal kind _ =>
      exact ⟨_, fun below refers => by simp [Refers, kind, Kind.children] at refers⟩
  | inside inside _ ih =>
      refine ⟨_, fun below refers => ?_⟩
      rw [Refers, Kind.children_of_inside? inside, List.mem_singleton] at refers
      exact refers ▸ ih
  | union kind _ ih =>
      refine ⟨_, fun below refers => ih below ?_⟩
      rwa [Refers, kind] at refers

theorem not_within_itself (valueless : graph.Valueless bare id) :
    ¬ Relation.TransGen graph.Refers id id := by
  have grounded := valueless.acc
  clear valueless
  induction grounded with
  | intro id _ ih =>
      intro again
      obtain ⟨below, first, rest⟩ := Relation.TransGen.head'_iff.mp again
      exact ih below first (.tail' rest first)

theorem ne_of_below (valueless : graph.Valueless bare other) (refers : graph.Refers id below)
    (reaches : Relation.ReflTransGen graph.Refers below other) : other ≠ id := by
  rintro rfl
  exact valueless.not_within_itself (.head' refers reaches)

end Valueless

end Graph

end RouterClient.Schema

namespace RouterClient.Typing

open Schema (Graph NodeId Kind Literal)
open Code (Body Declaration)

/-- What is left under some wrappers is reached through them. -/
theorem reaches_of_unwrap? {graph : Graph} {id base : NodeId} {declared above : Option NodeId}
    {steps : Nat} (unwrapped : unwrap? graph steps id declared = some (base, above)) :
    Relation.ReflTransGen graph.Leads id base := by
  induction steps generalizing id declared with
  | zero =>
      cases wrapped : wrapped? (graph.kind id) with
      | some inner => simp [unwrap?, wrapped] at unwrapped
      | none =>
          rw [unwrap?_bare wrapped] at unwrapped
          cases unwrapped
          exact .refl
  | succ steps ih =>
      cases wrapped : wrapped? (graph.kind id) with
      | some inner =>
          exact .head (leads_of_wrapped? wrapped) (ih (by simpa [unwrap?, wrapped] using unwrapped))
      | none =>
          rw [unwrap?_bare wrapped] at unwrapped
          cases unwrapped
          exact .refl

/-- An enum is declared exactly when one of its values is a string. -/
theorem declareEnum_eq_none_iff {settings : Settings} {name : String} {description : Option String}
    {values : List Literal} :
    declareEnum settings name description values = none ↔ ∀ value ∈ values, value.string? = none := by
  have kept (found raws : List String) :
      raws.foldl (fun found raw => if found.contains raw then found else found ++ [raw]) found = [] ↔
        found = [] ∧ raws = [] := by
    induction raws generalizing found with
    | nil => simp
    | cons raw more ih =>
        rw [List.foldl_cons, ih]
        by_cases taken : raw ∈ found
        · simp [taken, List.ne_nil_of_mem taken]
        · simp [taken]
  simp only [declareEnum, stringValues, List.isEmpty_iff, kept, true_and]
  split
  · next empty => simpa [List.filterMap_eq_nil_iff] using empty
  · next full => simpa [List.filterMap_eq_nil_iff] using full

section

variable {graph : Graph} {settings : Settings} {bare : Set String} {J : Judgement} {budget : Nat}
  {id below : NodeId} {site : Site} {name : String} {description : Option String}
  {scope : Model.Scope} {depth : Nat} {state next : State} {events : List Event}
  {definition : Option Declaration} {verdict : Verdict}

theorem Declares.none_of_valueless {body : Body}
    (declares : Declares graph settings J id name description scope depth state events definition
      next)
    (hollow : ∀ options, graph.kind id = .union options → body.types = [] → definition = none)
    (members : (∀ child ∈ (graph.kind id).children, graph.Valueless bare child) → body.types = [])
    (valueless : graph.Valueless bare id) : definition = none := by
  cases declares with
  | record kind _ => exact absurd valueless (Graph.Valueless.not_object kind)
  | enumeration kind =>
      rw [declareEnum_eq_none_iff]
      cases valueless <;> simp_all [Kind.inside?]
  | literal kind =>
      rw [declareEnum_eq_none_iff, List.forall_mem_singleton]
      cases valueless <;> simp_all [Kind.inside?]
  | union kind _ => exact hollow _ kind (members fun child listed => valueless.refers listed)

theorem Declares.valueless_of_none {body : Body}
    (declares : Declares graph settings J id name description scope depth state events none next)
    (empty : body.types = [])
    (members : body.types = [] → ∀ child ∈ (graph.kind id).children, graph.Valueless bare child) :
    graph.Valueless bare id := by
  generalize undeclared : none = definition at declares
  cases declares with
  | record _ _ => cases undeclared
  | enumeration kind => exact .enumeration kind (declareEnum_eq_none_iff.mp undeclared.symm)
  | literal kind =>
      have values := declareEnum_eq_none_iff.mp undeclared.symm
      exact .literal kind (values _ (List.mem_singleton_self _))
  | union kind _ =>
      refine .union kind fun option listed => members empty option ?_
      rwa [kind]

end

/-- A node that cannot be mentioned by any name. -/
structure State.Hides (state : State) (id : NodeId) : Prop where
  unpromoted : state.globals.globalName id = none
  hidden : state.scope.lookup id = none

/-- No node that stands for no value, at a node or inside it, can be mentioned. -/
def Unseen (graph : Graph) (bare : Set String) (id : NodeId) (state : State) : Prop :=
  ∀ other, Relation.ReflTransGen graph.Refers id other → graph.Valueless bare other →
    state.Hides other

/-- A node without a value is not typed, and no such node comes to be mentioned. -/
structure Respects (graph : Graph) (bare : Set String) (id : NodeId) (state : State)
    (verdict : Verdict) (next : State) : Prop where
  untyped : graph.Valueless bare id → ∀ typed, verdict ≠ .ok (some typed)
  unpromoted : ∀ other, graph.Valueless bare other → state.globals.globalName other = none →
    next.globals.globalName other = none
  hidden : ∀ other, graph.Valueless bare other → state.scope.lookup other = none →
    next.scope.lookup other = none

section

variable {graph : Graph} {settings : Settings} {bare : Set String} {J : Judgement} {budget : Nat}
  {id below : NodeId} {site : Site} {name : String} {description : Option String}
  {scope : Model.Scope} {depth : Nat} {state next : State} {events : List Event}
  {definition : Option Declaration} {verdict : Verdict}

theorem Unseen.of_reaches (unseen : Unseen graph bare id state)
    (reaches : Relation.ReflTransGen graph.Refers id below) : Unseen graph bare below state :=
  fun other reached => unseen other (reaches.trans reached)

theorem Unseen.enter (unseen : Unseen graph bare id state) : Unseen graph bare id state.enter :=
  fun other reaches valueless =>
    ⟨(unseen other reaches valueless).unpromoted, (unseen other reaches valueless).hidden⟩

theorem Respects.map {f : Typed → Typed} (respects : Respects graph bare below state verdict next)
    (same : graph.Valueless bare id → graph.Valueless bare below) :
    Respects graph bare id state (verdict.map (Option.map f)) next where
  untyped valueless typed outcome := by
    rcases verdict with failure | ⟨_ | inner⟩
    · cases outcome
    · cases outcome
    · exact respects.untyped (same valueless) inner rfl
  unpromoted := respects.unpromoted
  hidden := respects.hidden

/-- What stays as it is. -/
theorem Respects.of_untyped (untyped : graph.Valueless bare id → ∀ typed, verdict ≠ .ok (some typed))
    (globals : ∀ other, next.globals.globalName other = state.globals.globalName other)
    (scope : next.scope = state.scope) : Respects graph bare id state verdict next where
  untyped := untyped
  unpromoted _ _ unpromoted := (globals _).trans unpromoted
  hidden _ _ hidden := scope ▸ hidden

/-- A node with a value may come to be mentioned itself. -/
theorem Respects.of_valued (valued : ¬ graph.Valueless bare id)
    (unpromoted : ∀ other, id ≠ other → graph.Valueless bare other →
      state.globals.globalName other = none → next.globals.globalName other = none)
    (hidden : ∀ other, id ≠ other → state.scope.lookup other = none →
      next.scope.lookup other = none) : Respects graph bare id state verdict next := by
  have apart {other : NodeId} (valueless : graph.Valueless bare other) : id ≠ other := by
    rintro rfl
    exact valued valueless
  exact ⟨fun valueless => absurd valueless valued,
    fun other valueless => unpromoted other (apart valueless) valueless,
    fun other valueless => hidden other (apart valueless)⟩

/-- A reservation that is undone. -/
theorem Respects.of_abandoned {proposal : String}
    (untyped : graph.Valueless bare id → ∀ typed, verdict ≠ .ok (some typed))
    (kept : ∀ other, graph.Valueless bare other →
      (state.reserved id proposal).globals.globalName other = none →
      next.globals.globalName other = none)
    (scope : next.scope = state.scope) :
    Respects graph bare id state verdict (next.withGlobals (next.globals.abandon id)) where
  untyped := untyped
  unpromoted other valueless unpromoted := by
    by_cases same : id = other
    · subst same
      exact Model.GlobalModels.globalName_abandon_self _ _
    · refine (Model.GlobalModels.globalName_abandon_of_ne _ same).trans (kept other valueless ?_)
      exact (Model.GlobalModels.globalName_reserveOwn_of_ne _ _ _ same).trans unpromoted
  hidden other _ hidden := (congrArg (Model.Scope.lookup · other) scope).trans hidden

/-- The nodes without a value that a declaration finds unmentioned stay so, and each of its members is
typed where none of them can be seen. -/
theorem Declares.unseen_invariant {I : List NodeId → Body → List Event → State → Prop}
    (declares : Declares graph settings J id name description scope depth state events definition
      next)
    (respects : ∀ {id site state events verdict next}, J id site state events verdict next →
      Unseen graph bare id state → Respects graph bare id state verdict next)
    (outside : ∀ other, other ≠ id → Relation.ReflTransGen graph.Refers id other →
      graph.Valueless bare other → (state.within scope).Hides other)
    (start : I [] {} [] state)
    (pass : ∀ {done before after log below site state events verdict next failure} location,
      IsMember graph id depth below site → Unseen graph bare below (state.within scope) →
      J below site (state.within scope) events verdict next →
      Joins before verdict failure after → I done before log state →
      I (done ++ [below]) after (log ++ events)
        ((next.within state.scope).note location failure)) :
    (∃ body, I (graph.kind id).children body events next ∧
      (∀ declaration, definition = some declaration →
        declaration.body = body ∧ declaration.heading.name = name) ∧
      (definition = none → body.types = []) ∧
      ∀ options, graph.kind id = .union options → body.types = [] → definition = none) ∧
    ∀ other, graph.Valueless bare other → state.globals.globalName other = none →
      next.globals.globalName other = none := by
  have both := declares.joins_invariant
    (I := fun done body log last => I done body log last ∧
      ∀ other, graph.Valueless bare other → state.globals.globalName other = none →
        last.globals.globalName other = none)
    ⟨start, fun _ _ unpromoted => unpromoted⟩ ?_
  · obtain ⟨body, ⟨held, kept⟩, rest⟩ := both
    exact ⟨⟨body, held, rest⟩, kept⟩
  · intro done before after log below site middle events verdict next failure location member derived
      joins held
    obtain ⟨held, kept⟩ := held
    have unseen : Unseen graph bare below (middle.within scope) := by
      intro other reached valueless
      have apart := valueless.ne_of_below member.child reached
      have found := outside other apart (.head member.child reached) valueless
      exact ⟨kept other valueless found.unpromoted, found.hidden⟩
    refine ⟨pass location member unseen derived joins held, fun other valueless unpromoted => ?_⟩
    rw [State.note_globals]
    exact (respects derived unseen).unpromoted other valueless (kept other valueless unpromoted)

theorem Unseen.reserved (unseen : Unseen graph bare id state) (proposal : String) (other : NodeId)
    (apart : other ≠ id) (reaches : Relation.ReflTransGen graph.Refers id other)
    (valueless : graph.Valueless bare other) :
    ((state.reserved id proposal).within (Model.Scope.insert {} id name)).Hides other where
  unpromoted := by
    rw [← (unseen other reaches valueless).unpromoted]
    exact Model.GlobalModels.globalName_reserveOwn_of_ne _ _ _ apart.symm
  hidden := (Model.Scope.lookup_insert _ _ _ _).trans (if_neg apart.symm)

theorem Unseen.shown (unseen : Unseen graph bare id state) (proposal : String) (other : NodeId)
    (apart : other ≠ id) (reaches : Relation.ReflTransGen graph.Refers id other)
    (valueless : graph.Valueless bare other) :
    ((state.shown id proposal).within (state.scope.insert id name)).Hides other where
  unpromoted := (state.named_globalName id other proposal).trans
    (unseen other reaches valueless).unpromoted
  hidden := by
    rw [← (unseen other reaches valueless).hidden]
    exact (Model.Scope.lookup_insert _ _ _ _).trans (if_neg apart.symm)

/-- A node without a value comes to no declaration. -/
theorem Declares.respects
    (declares : Declares graph settings J id name description scope depth state events definition
      next)
    (respects : ∀ {id site state events verdict next}, J id site state events verdict next →
      Unseen graph bare id state → Respects graph bare id state verdict next)
    (outside : ∀ other, other ≠ id → Relation.ReflTransGen graph.Refers id other →
      graph.Valueless bare other → (state.within scope).Hides other) :
    (graph.Valueless bare id → definition = none) ∧
    ∀ other, graph.Valueless bare other → state.globals.globalName other = none →
      next.globals.globalName other = none := by
  have whole := declares.unseen_invariant respects outside
    (I := fun done body _ _ => (∀ child ∈ done, graph.Valueless bare child) → body.types = [])
    (fun _ => rfl) ?_
  · obtain ⟨⟨body, empty, _, _, hollow⟩, kept⟩ := whole
    exact ⟨declares.none_of_valueless hollow empty, kept⟩
  · intro done before after log below site _ _ verdict _ failure _ _ unseen derived joins empty
      valueless
    have last := valueless below (by simp)
    cases joins with
    | absent | failed | refused => exact empty fun child listed => valueless child (by simp [listed])
    | kept => exact absurd rfl ((respects derived unseen).untyped last _)

/-- Typing never comes to a value for a node that has none, wherever it begins, as long as no such node
inside can be mentioned; and it makes none of them mentionable. -/
theorem Derives.respects
    (derived : Derives graph settings budget id site state events verdict next)
    (unseen : Unseen graph bare id state) : Respects graph bare id state verdict next := by
  refine Derives.induction (P := fun id _ state _ verdict next =>
    Unseen graph bare id state → Respects graph bare id state verdict next) ?_ ?_ ?_ derived unseen
  · exact fun _ => .of_untyped (fun _ => by rintro _ ⟨⟩) (fun _ => rfl) rfl
  · intro _ _ _ _ _ _ respects unseen
    have kept := respects unseen.enter
    exact ⟨kept.untyped, kept.unpromoted, kept.hidden⟩
  intro budget id site state events verdict next below step unseen
  cases step with
  | primitive kind =>
      refine .of_untyped (fun valueless => ?_) (fun _ => rfl) rfl
      cases valueless <;> simp_all [Kind.inside?]
  | empty _ | unsupported _ | endless _ _ => exact .of_untyped (fun _ => by rintro _ ⟨⟩) (fun _ => rfl) rfl
  | optional kind chain inner =>
      have reaches := reaches_of_unwrap? chain
      refine (below inner (unseen.of_reaches (Graph.refers_of_leads reaches))).map ?_
      exact fun valueless => valueless.of_leads reaches
  | collection kind inner =>
      have leads := Graph.leads_of_collection kind
      refine (below inner (unseen.of_reaches (.single leads.refers))).map ?_
      exact fun valueless => valueless.refers leads.refers
  | transform kind inner =>
      have leads := Graph.leads_of_transform kind
      have kept := below inner (unseen.of_reaches (.single leads.refers))
      exact ⟨fun valueless => kept.untyped (valueless.refers leads.refers), kept.2, kept.3⟩
  | promoted _ promoted =>
      refine .of_untyped (fun valueless => ?_) (fun other => state.named_globalName _ _ _) rfl
      have found := (unseen id .refl valueless).unpromoted
      exact absurd (promoted.symm.trans found) (Option.some_ne_none _)
  | visible _ _ visible =>
      refine .of_untyped (fun valueless => ?_) (fun other => state.named_globalName _ _ _) rfl
      have found := (unseen id .refl valueless).hidden
      exact absurd (visible.symm.trans found) (Option.some_ne_none _)
  | accepted fresh _ same declares registered =>
      subst same
      obtain ⟨undeclared, kept⟩ := declares.respects below (unseen.reserved _)
      have accepts := Model.GlobalModels.accepts_of_register registered
      refine .of_valued (fun valueless => Option.some_ne_none _ (undeclared valueless)) ?_ ?_
      · intro other apart valueless unpromoted
        refine (accepts.others apart).trans (kept other valueless ?_)
        exact (Model.GlobalModels.globalName_reserveOwn_of_ne _ _ _ apart).trans unpromoted
      · intro other _ hidden
        exact (congrArg (Model.Scope.lookup · other) declares.scope_eq).trans hidden
  | collided fresh _ same declares registered =>
      subst same
      obtain ⟨undeclared, kept⟩ := declares.respects below (unseen.reserved _)
      obtain ⟨_, rfl⟩ := Model.GlobalModels.register_error registered
      exact .of_abandoned (fun _ => by rintro _ ⟨⟩) kept declares.scope_eq
  | void fresh _ same declares =>
      subst same
      obtain ⟨_, kept⟩ := declares.respects below (unseen.reserved _)
      exact .of_abandoned (fun _ => by rintro _ ⟨⟩) kept declares.scope_eq
  | nested fresh _ same declares =>
      subst same
      obtain ⟨undeclared, kept⟩ := declares.respects below (unseen.shown _)
      refine .of_valued (fun valueless => Option.some_ne_none _ (undeclared valueless)) ?_ ?_
      · intro other _ valueless unpromoted
        exact kept other valueless ((state.named_globalName _ _ _).trans unpromoted)
      · intro other apart hidden
        refine (congrArg (Model.Scope.lookup · other) declares.scope_eq).trans ?_
        exact (Model.Scope.lookup_insert _ _ _ _).trans ((if_neg apart).trans hidden)
  | hollow fresh _ same declares =>
      subst same
      obtain ⟨_, kept⟩ := declares.respects below (unseen.shown _)
      refine ⟨fun _ => by rintro _ ⟨⟩, ?_, ?_⟩
      · intro other valueless unpromoted
        exact kept other valueless ((state.named_globalName _ _ _).trans unpromoted)
      · intro other _ hidden
        have after := congrArg (Model.Scope.remove · id) declares.scope_eq
        rw [State.within_scope, after.trans (Model.Scope.remove_insert _ _ _ fresh.hidden)]
        exact hidden

end

/-- Failures that do not keep out what has a value: no clash of names and no lack of room is among them,
and no Swift type stands for the schemas in `bare` anyway. -/
structure Spares (bare : Set String) (spared : Set Failure) : Prop where
  collision : ∀ name, .nameCollision name ∉ spared
  limit : ∀ limit, .recursionLimit limit ∉ spared
  schema : ∀ typeName, .unsupportedSchema typeName ∈ spared → typeName ∈ bare

/-- Only such failures have been reported. -/
def State.Clean (spared : Set Failure) (state : State) : Prop :=
  ∀ diagnostic ∈ state.diagnostics, diagnostic.failure ∈ spared

theorem Spares.empty : Spares ∅ ∅ :=
  ⟨nofun, nofun, nofun⟩

section

variable {graph : Graph} {settings : Settings} {bare : Set String} {spared : Set Failure}
  {budget : Nat} {id : NodeId} {site : Site} {state next : State} {events : List Event}
  {verdict : Verdict}

theorem State.Clean.of_prefix (clean : next.Clean spared)
    (grows : state.diagnostics <+: next.diagnostics) : state.Clean spared :=
  fun diagnostic reported => clean diagnostic (grows.subset reported)

/-- Before a member was typed, and before it was left out, nothing else had been left out either. -/
theorem State.Clean.of_note {location : String} {failure : Option Failure}
    (clean : (next.note location failure).Clean spared) :
    next.Clean spared ∧ ∀ left, failure = some left → left ∈ spared := by
  cases failure with
  | none => exact ⟨clean, nofun⟩
  | some left =>
      refine ⟨clean.of_prefix (List.prefix_append _ _), ?_⟩
      rintro _ ⟨⟩
      exact clean ⟨location, left⟩ (List.mem_append_right _ (List.mem_singleton_self _))

theorem spared_of_map {f : Option Typed → Option Typed}
    (noted : ∀ failure, verdict.map f = .error failure → failure ∈ spared) :
    ∀ failure, verdict = .error failure → failure ∈ spared := by
  rintro failure rfl
  exact noted failure rfl

theorem untyped_of_map {f : Typed → Typed}
    (untyped : ∀ typed, verdict.map (Option.map f) ≠ .ok (some typed)) :
    ∀ typed, verdict ≠ .ok (some typed) := by
  rintro typed rfl
  exact untyped _ rfl

/-- A declaration that comes to nothing is that of a node without a value, given that its members come
to nothing only if they have none. -/
theorem Declares.valueless_of_clean {name : String} {description : Option String}
    {scope : Model.Scope} {depth : Nat} (spares : Spares bare spared)
    (below : ∀ {id site state events verdict next},
      Derives graph settings budget id site state events verdict next → next.Clean spared →
      (∀ failure, verdict = .error failure → failure ∈ spared) →
      (∀ typed, verdict ≠ .ok (some typed)) → graph.Valueless bare id)
    (declares : Declares graph settings (Derives graph settings budget) id name description scope
      depth state events none next)
    (clean : next.Clean spared) : graph.Valueless bare id := by
  have invariant := declares.joins_invariant
    (I := fun done body _ last => last.Clean spared → body.types = [] →
      ∀ child ∈ done, graph.Valueless bare child) (fun _ _ => nofun) ?_
  · obtain ⟨body, members, _, empty, _⟩ := invariant
    exact declares.valueless_of_none (empty rfl) (members clean)
  intro done before after log child site middle events verdict next failure location _ derived joins
    held clean none
  obtain ⟨clean, noted⟩ := clean.of_note
  have earlier := held (clean.of_prefix derived.diagnostics_prefix)
  have last (noted : ∀ failure, verdict = .error failure → failure ∈ spared)
      (untyped : ∀ typed, verdict ≠ .ok (some typed)) (none : before.types = []) :
      ∀ other ∈ done ++ [child], graph.Valueless bare other := by
    simp only [List.forall_mem_append, List.forall_mem_singleton]
    exact ⟨earlier none, below derived clean noted untyped⟩
  cases joins with
  | absent => exact last nofun nofun none
  | failed =>
      refine last ?_ nofun none
      rintro _ ⟨⟩
      exact noted _ rfl
  | refused => exact absurd (noted _ rfl) (spares.collision _)
  | kept => simp at none

/-- Where nothing else is left out, only nodes without a value come to nothing. -/
theorem Derives.valueless_of_untyped (spares : Spares bare spared)
    (derived : Derives graph settings budget id site state events verdict next)
    (clean : next.Clean spared) (noted : ∀ failure, verdict = .error failure → failure ∈ spared)
    (untyped : ∀ typed, verdict ≠ .ok (some typed)) : graph.Valueless bare id := by
  refine Derives.induction (P := fun id _ _ _ verdict next => next.Clean spared →
    (∀ failure, verdict = .error failure → failure ∈ spared) →
    (∀ typed, verdict ≠ .ok (some typed)) → graph.Valueless bare id) ?_ ?_ ?_ derived clean noted
    untyped
  · exact fun _ noted _ => absurd (noted _ rfl) (spares.limit _)
  · exact fun valueless => valueless
  intro budget id site state events verdict next below step clean noted untyped
  cases step with
  | primitive _ | promoted _ _ | visible _ _ _ | accepted _ _ _ _ _ | nested _ _ _ _ =>
      exact absurd rfl (untyped _)
  | empty kind => exact .empty kind
  | unsupported kind => exact .unsupported kind (spares.schema _ (noted _ rfl))
  | endless _ _ => exact absurd (noted _ rfl) (spares.limit _)
  | collided _ _ _ _ registered =>
      obtain ⟨rfl, _⟩ := Model.GlobalModels.register_error registered
      exact absurd (noted _ rfl) (spares.collision _)
  | optional kind chain inner =>
      have none := below inner clean (spared_of_map noted) (untyped_of_map untyped)
      exact .of_reached none (reaches_of_unwrap? chain)
  | collection kind inner =>
      have none := below inner clean (spared_of_map noted) (untyped_of_map untyped)
      exact .inside (by rw [kind]; rfl) none
  | transform kind inner => exact .inside (by rw [kind]; rfl) (below inner clean noted untyped)
  | void _ _ _ declares => exact declares.valueless_of_clean spares below clean
  | hollow _ _ _ declares => exact declares.valueless_of_clean spares below clean

/-- Whether a node is typed depends on nothing but the graph. -/
theorem Derives.untyped_iff (spares : Spares bare spared)
    (derived : Derives graph settings budget id site state events verdict next)
    (unseen : Unseen graph bare id state) (clean : next.Clean spared)
    (noted : ∀ failure, verdict = .error failure → failure ∈ spared) :
    (∀ typed, verdict ≠ .ok (some typed)) ↔ graph.Valueless bare id :=
  ⟨derived.valueless_of_untyped spares clean noted, (derived.respects unseen).untyped⟩

end

end RouterClient.Typing
