import RouterClient.Proofs.Typing.Exhausted
import RouterClient.Proofs.Typing.Hygiene

/-! # Citations of global models

A node is declared for the whole file because some member comes down to it.  Where no name is taken, the
member is kept: it is in the type that is given for the node, in a model that is nested there, or in the
declaration of another node for the whole file.
-/

namespace RouterClient.Code

open Schema (NodeId)

/-- A member of the body comes down to the model of a node. -/
def Body.Cites (body : Body) (id : NodeId) : Prop :=
  ∃ type ∈ body.types, type.owner? = some id

/-- A member of the declaration, or of a model nested in it at any depth, comes down to the model of a
node. -/
def Declaration.Cites (declaration : Declaration) (id : NodeId) : Prop :=
  ∃ body ∈ declaration.bodies, body.Cites id

instance (body : Body) (id : NodeId) : Decidable (body.Cites id) :=
  decidable_of_iff (body.types.any (fun type => type.owner? == some id) = true)
    (by simp [Body.Cites])

/-- A member beside some models, or of one of the models, comes down to the model of a node. -/
def Body.CitesWithin (body : Body) (id : NodeId) : Prop :=
  body.Cites id ∨ ∃ model ∈ body.models, model.definition.Cites id

theorem Declaration.cites_iff {declaration : Declaration} {id : NodeId} :
    declaration.Cites id ↔ declaration.body.CitesWithin id := by
  constructor
  · rintro ⟨body, inside, cites⟩
    rcases mem_bodies.mp inside with rfl | ⟨model, nested, inside⟩
    · exact .inl cites
    · exact .inr ⟨model, nested, body, inside, cites⟩
  · rintro (cites | ⟨model, nested, body, inside, cites⟩)
    · exact ⟨_, mem_bodies.mpr (.inl rfl), cites⟩
    · exact ⟨body, mem_bodies.mpr (.inr ⟨model, nested, inside⟩), cites⟩

end RouterClient.Code

namespace RouterClient.Typing

open Model (GlobalModels LocalModel LocalModels Scope)
open Schema (Graph NodeId)
open Code (Body Declaration TypeExpr)

/-! ## The log of a run -/

/-- What is declared for the whole file could not be mentioned by a global name before. -/
def DeclaresNew (before : GlobalModels Declaration) (log : List Event) : Prop :=
  ∀ id definition, .declared id definition ∈ log → before.globalName id = none

/-- A declaration that was made for a node and stands in the file under the node's global name: it is held
there, or another node's of the same text is. -/
structure Stands (graph : Graph) (settings : Settings) (globals : GlobalModels Declaration)
    (id : NodeId) (definition : Declaration) : Prop where
  made : ∃ budget name description scope depth state events next,
    Declares graph settings (Derives graph settings budget) id name description scope depth state events
      (some definition) next
  emitted : ∃ name model, globals.globalName id = some name ∧
    globals.models.get? name = some model ∧ model.definition.text = definition.text ∧
    (model.owner = id → model.definition = definition)

/-- Every global model that a run adds is in its log, and what is in the log stands in the file. -/
structure Logged (graph : Graph) (settings : Settings) (before : GlobalModels Declaration)
    (log : List Event) (after : GlobalModels Declaration) : Prop where
  held : ∀ entry ∈ after.models,
    entry ∈ before.models ∨ .declared entry.2.owner entry.2.definition ∈ log
  stands : ∀ id definition, .declared id definition ∈ log → Stands graph settings after id definition

section

variable {graph : Graph} {settings : Settings} {before middle after inner closed : GlobalModels Declaration}
  {log first second : List Event} {id other : NodeId} {proposal : String} {definition : Declaration}

theorem DeclaresNew.nil : DeclaresNew before [] :=
  fun _ _ listed => absurd listed List.not_mem_nil

theorem DeclaresNew.trans (left : DeclaresNew before first) (right : DeclaresNew middle second)
    (evolves : Evolves graph before middle) : DeclaresNew before (first ++ second) := by
  intro id definition declared
  rcases List.mem_append.mp declared with declared | declared
  · exact left id definition declared
  · cases known : before.globalName id with
    | none => rfl
    | some name =>
        have kept := evolves.promoted id name known
        rw [right id definition declared] at kept
        cases kept

/-- What is declared while a node is reserved is declared for other nodes. -/
theorem DeclaresNew.apart (body : DeclaresNew (before.reserveOwn id proposal) log)
    (declared : .declared other definition ∈ log) : id ≠ other := by
  have unpromoted := body other definition declared
  rintro rfl
  rw [GlobalModels.globalName_reserveOwn_self] at unpromoted
  cases unpromoted

theorem DeclaresNew.of_reserved (body : DeclaresNew (before.reserveOwn id proposal) log) :
    DeclaresNew before log := fun other definition declared =>
  (GlobalModels.globalName_reserveOwn_of_ne _ _ _ (body.apart declared)).symm.trans
    (body other definition declared)

theorem Stands.mono (stands : Stands graph settings before id definition)
    (promoted : ∀ name, before.globalName id = some name → after.globalName id = some name)
    (models : before.models <+: after.models) : Stands graph settings after id definition where
  made := stands.made
  emitted := by
    obtain ⟨name, model, known, found, facts⟩ := stands.emitted
    obtain ⟨more, models⟩ := models
    refine ⟨name, model, promoted name known, ?_, facts⟩
    rw [← models, Table.get?_append, found, Option.some_or]

theorem Logged.of_models (same : after.models = before.models) :
    Logged graph settings before [] after where
  held _ listed := .inl (same ▸ listed)
  stands _ _ listed := absurd listed List.not_mem_nil

theorem Logged.trans (left : Logged graph settings before first middle)
    (right : Logged graph settings middle second after) (evolves : Evolves graph middle after) :
    Logged graph settings before (first ++ second) after where
  held entry listed := by
    rcases right.held entry listed with listed | declared
    · rcases left.held entry listed with listed | declared
      · exact .inl listed
      · exact .inr (List.mem_append_left _ declared)
    · exact .inr (List.mem_append_right _ declared)
  stands id definition declared := by
    rcases List.mem_append.mp declared with declared | declared
    · exact (left.stands id definition declared).mono (evolves.promoted id) evolves.models
    · exact right.stands id definition declared

/-- A reservation that is undone. -/
theorem Logged.abandon (body : Logged graph settings (before.reserveOwn id proposal) log inner)
    (new : DeclaresNew (before.reserveOwn id proposal) log) :
    Logged graph settings before (log ++ [.withdrawn id]) (inner.abandon id) := by
  refine ⟨fun entry listed => ?_, fun other definition declared => ?_⟩
  · rcases body.held entry listed with listed | declared
    · rw [GlobalModels.models_reserveOwn] at listed
      exact .inl listed
    · exact .inr (List.mem_append_left _ declared)
  · have declared : .declared other definition ∈ log := by simpa using declared
    refine (body.stands other definition declared).mono (fun name known => ?_) List.prefix_rfl
    exact (GlobalModels.globalName_abandon_of_ne inner (new.apart declared)).trans known

/-- A reservation that becomes a declaration. -/
theorem Logged.register (consistent : Consistent before) (fresh : before.globalName id = none)
    (evolves : Evolves graph (before.reserveOwn id proposal) inner)
    (body : Logged graph settings (before.reserveOwn id proposal) log inner)
    (new : DeclaresNew (before.reserveOwn id proposal) log)
    (made : ∃ budget name description scope depth state events next,
      Declares graph settings (Derives graph settings budget) id name description scope depth state events
        (some definition) next)
    (registered : inner.register id (before.resolveName id proposal).1 definition = (.ok (), closed)) :
    Logged graph settings before (log ++ [.declared id definition]) closed := by
  have accepts := GlobalModels.accepts_of_register registered
  -- A node that is only reserved has no model yet.
  have unowned (entry : String × Model.GlobalModel Declaration) (listed : entry ∈ inner.models) :
      entry.2.owner ≠ id := by
    intro own
    rcases evolves.owned entry listed with listed | ⟨free, _⟩
    · rw [GlobalModels.models_reserveOwn] at listed
      have known := consistent.owned entry listed
      rw [own, fresh] at known
      cases known
    · rw [own, GlobalModels.globalName_reserveOwn_self] at free
      cases free
  refine ⟨fun entry listed => ?_, fun other declaration declared => ?_⟩
  · rcases accepts.added entry listed with listed | rfl
    · rcases body.held entry listed with listed | declared
      · rw [GlobalModels.models_reserveOwn] at listed
        exact .inl listed
      · exact .inr (List.mem_append_left _ declared)
    · exact .inr (List.mem_append_right _ (List.mem_singleton_self _))
  · rcases List.mem_append.mp declared with declared | declared
    · refine (body.stands other declaration declared).mono (fun name known => ?_) accepts.models
      exact (accepts.others (new.apart declared)).trans known
    · cases List.mem_singleton.mp declared
      obtain ⟨model, found, shared⟩ := accepts.found
      have own (owned : model.owner = id) : model.definition = definition := by
        rcases accepts.added _ (Table.mem_of_get? found) with listed | same
        · exact absurd owned (unowned _ listed)
        · exact congrArg Model.GlobalModel.definition (Prod.mk.inj same).2
      refine ⟨made, _, model, accepts.own, found, ?_, own⟩
      rcases shared with owned | same
      · rw [own owned]
      · exact beq_iff_eq.mp same

end

section

variable {graph : Graph} {settings : Settings} {budget : Nat} {id : NodeId} {site : Site}
  {name : String} {description : Option String} {scope : Scope} {depth : Nat} {state next : State}
  {events : List Event} {verdict : Verdict} {definition : Option Declaration}

theorem Declares.new
    (below : ∀ {id site state events verdict next},
      Derives graph settings budget id site state events verdict next →
      DeclaresNew state.globals events)
    (declares : Declares graph settings (Derives graph settings budget) id name description scope
      depth state events definition next) :
    DeclaresNew state.globals events := by
  refine (declares.chain (R := fun before log after => DeclaresNew before.globals log ∧
    Evolves graph before.globals after.globals) (fun _ => ⟨.nil, .refl graph _⟩) ?_ ?_).1
  · intro a b c first second left right
    exact ⟨left.1.trans right.1 left.2, left.2.trans right.2⟩
  · intro id site state events verdict next location failure derived
    rw [State.note_globals]
    have new := below derived
    exact ⟨new, derived.evolves⟩

theorem Derives.new (derived : Derives graph settings budget id site state events verdict next) :
    DeclaresNew state.globals events := by
  refine Derives.induction (P := fun _ _ state events _ _ => DeclaresNew state.globals events)
    .nil (fun new => new) ?_ derived
  intro budget id site state events verdict next below step
  cases step with
  | primitive _ | empty _ | unsupported _ | endless _ _ | promoted _ _ | visible _ _ _ => exact .nil
  | optional _ _ inner => exact below inner
  | collection _ inner => exact below inner
  | transform _ inner => exact below inner
  | accepted fresh _ _ declares _ =>
      intro other given declared
      rcases List.mem_append.mp declared with declared | declared
      · exact (declares.new below).of_reserved other given declared
      · cases List.mem_singleton.mp declared
        exact fresh.unpromoted
  | collided _ _ _ declares _ | void _ _ _ declares =>
      intro other given declared
      exact (declares.new below).of_reserved other given (by simpa using declared)
  | nested _ _ _ declares | hollow _ _ _ declares =>
      intro other given declared
      exact (State.named_globalName _ _ _ _).symm.trans (declares.new below other given declared)

theorem Declares.logged
    (below : ∀ {id site state events verdict next},
      Derives graph settings budget id site state events verdict next → Consistent state.globals →
      Logged graph settings state.globals events next.globals)
    (declares : Declares graph settings (Derives graph settings budget) id name description scope
      depth state events definition next)
    (consistent : Consistent state.globals) :
    Logged graph settings state.globals events next.globals := by
  have chained := declares.chain (R := fun before log after => Consistent before.globals →
    Logged graph settings before.globals log after.globals ∧
      Evolves graph before.globals after.globals)
    (fun _ _ => ⟨.of_models rfl, .refl graph _⟩) ?_ ?_
  · exact (chained consistent).1
  · intro a b c first second left right consistent
    obtain ⟨left, earlier⟩ := left consistent
    obtain ⟨right, later⟩ := right (earlier.consistent consistent)
    exact ⟨left.trans right later, earlier.trans later⟩
  · intro id site state events verdict next location failure derived consistent
    rw [State.note_globals]
    have logged := below derived consistent
    exact ⟨logged, derived.evolves⟩

theorem Derives.logged (derived : Derives graph settings budget id site state events verdict next)
    (consistent : Consistent state.globals) :
    Logged graph settings state.globals events next.globals := by
  refine Derives.induction (P := fun _ _ state events _ next => Consistent state.globals →
    Logged graph settings state.globals events next.globals) (fun _ => .of_models rfl)
    (fun logged => logged) ?_ derived consistent
  intro budget id site state events verdict next below step consistent
  cases step with
  | primitive _ | empty _ | unsupported _ | endless _ _ => exact .of_models rfl
  | promoted _ _ | visible _ _ _ => exact .of_models (State.named_models _ _ _)
  | optional _ _ inner => exact below inner consistent
  | collection _ inner => exact below inner consistent
  | transform _ inner => exact below inner consistent
  | accepted fresh _ same declares registered =>
      subst same
      have reserved := consistent.reserveOwn fresh.unpromoted (proposedName graph id site)
      exact .register consistent fresh.unpromoted (declares.evolves Derives.evolves)
        (declares.logged below reserved) (declares.new Derives.new)
        ⟨_, _, _, _, _, _, _, _, declares⟩ registered
  | collided fresh _ _ declares registered =>
      obtain ⟨_, rfl⟩ := GlobalModels.register_error registered
      have reserved := consistent.reserveOwn fresh.unpromoted (proposedName graph id site)
      exact (declares.logged below reserved).abandon (declares.new Derives.new)
  | void fresh _ _ declares =>
      have reserved := consistent.reserveOwn fresh.unpromoted (proposedName graph id site)
      exact (declares.logged below reserved).abandon (declares.new Derives.new)
  | nested _ _ _ declares | hollow _ _ _ declares =>
      have naming := Evolves.resolveName graph state.globals id (proposedName graph id site)
      have named : Logged graph settings state.globals []
          (state.globals.resolveName id (proposedName graph id site)).2 :=
        .of_models (GlobalModels.models_resolveName _ _ _)
      exact named.trans (declares.logged below (naming.consistent consistent))
        (declares.evolves Derives.evolves)

/-! ## What cites a global model -/

/-- The type of a node comes down to the model of another one, or a model to be nested does. -/
def Typed.Cites (typed : Typed) (id : NodeId) : Prop :=
  typed.type.owner? = some id ∨ ∃ model, typed.model = some model ∧ model.definition.Cites id

/-- Another node is declared for the whole file and comes down to the model of the node. -/
def CitedBeside (log : List Event) (id : NodeId) : Prop :=
  ∃ other definition, .declared other definition ∈ log ∧ other ≠ id ∧ definition.Cites id

/-- Whatever is declared for the whole file is cited in some way, or beside. -/
def CitedBy (cites : NodeId → Prop) (log : List Event) : Prop :=
  ∀ id definition, .declared id definition ∈ log → cites id ∨ CitedBeside log id

/-- Nothing is declared for the whole file unless there is a type in the end, and what is declared is cited
by the type or by another declaration. -/
def Cited (events : List Event) (verdict : Verdict) : Prop :=
  ∀ id definition, .declared id definition ∈ events →
    ∃ typed, verdict = .ok (some typed) ∧ (typed.Cites id ∨ CitedBeside events id)

/-- The same for a declaration with some of its members.  A model that is nested in it leaves nothing to
declare, should it come again. -/
structure BodyCited (graph : Graph) (settings : Settings) (scope : Scope) (depth : Nat)
    (body : Body) (log : List Event) (last : State) : Prop where
  cited : CitedBy body.CitesWithin log
  exhausted : ∀ model ∈ body.models, ∀ child ∈ (graph.kind model.owner).children,
    Exhausted graph settings (fun other => other = model.owner ∨ (last.within scope).Knows other)
      (depth + 2) none child

theorem CitedBeside.mono {log more : List Event} (cited : CitedBeside log id) (grows : log ⊆ more) :
    CitedBeside more id := by
  obtain ⟨other, definition, declared, rest⟩ := cited
  exact ⟨other, definition, grows declared, rest⟩

section

variable {cites more : NodeId → Prop} {log first second : List Event}

theorem CitedBy.of_silent (silent : Silent log) : CitedBy cites log :=
  fun id definition declared => absurd declared (silent id definition)

theorem CitedBy.imp (cited : CitedBy cites log) (weaken : ∀ id, cites id → more id) : CitedBy more log :=
  fun id definition declared => (cited id definition declared).imp_left (weaken id)

theorem CitedBy.append (left : CitedBy cites first) (right : CitedBy cites second) :
    CitedBy cites (first ++ second) := by
  intro id definition declared
  rcases List.mem_append.mp declared with declared | declared
  · exact (left id definition declared).imp_right fun beside => beside.mono (List.subset_append_left _ _)
  · exact (right id definition declared).imp_right fun beside => beside.mono (List.subset_append_right _ _)

end

theorem Cited.of_silent (silent : Silent events) : Cited events verdict :=
  fun id definition declared => absurd declared (silent id definition)

theorem Typed.Cites.of_map {typed : Typed} {f : Typed → Typed} (cites : typed.Cites id)
    (base : (f typed).type.base = typed.type.base) (model : (f typed).model = typed.model) :
    (f typed).Cites id := by
  rcases cites with owned | nested
  · exact .inl ((TypeExpr.owner?_of_base base).trans owned)
  · exact .inr (model ▸ nested)

theorem Cited.map {f : Typed → Typed} (cited : Cited events verdict)
    (base : ∀ typed, (f typed).type.base = typed.type.base)
    (model : ∀ typed, (f typed).model = typed.model) :
    Cited events (verdict.map (Option.map f)) := by
  intro id definition declared
  obtain ⟨typed, rfl, cites⟩ := cited id definition declared
  exact ⟨f typed, rfl, cites.imp_left fun cites => cites.of_map (base typed) (model typed)⟩

theorem Cited.silent (cited : Cited events verdict) (untyped : ∀ typed, verdict ≠ .ok (some typed)) :
    Silent events := by
  intro id definition declared
  obtain ⟨typed, same, _⟩ := cited id definition declared
  exact untyped typed same

/-- What is cited in a body is cited in it when one more type has joined. -/
theorem citesWithin_grow {body : Body} {type : TypeExpr} {models : LocalModels Declaration}
    (cites : body.CitesWithin id) (kept : ∀ model ∈ body.models, model ∈ models) :
    Body.CitesWithin ⟨body.types ++ [type], models⟩ id := by
  rcases cites with ⟨cited, listed, owned⟩ | ⟨model, nested, cites⟩
  · exact .inl ⟨cited, List.mem_append_left _ listed, owned⟩
  · exact .inr ⟨model, kept model nested, cites⟩

variable {body : Body} {log : List Event}

theorem BodyCited.start : BodyCited graph settings scope depth {} [] state where
  cited := .of_silent .nil
  exhausted _ nested := absurd nested List.not_mem_nil

/-- A member that declares nothing for the whole file. -/
theorem BodyCited.quiet (held : BodyCited graph settings scope depth body log state)
    (silent : Silent events)
    (knows : ∀ other, (state.within scope).Knows other → (next.within scope).Knows other) :
    BodyCited graph settings scope depth body (log ++ events) next where
  cited := held.cited.append (.of_silent silent)
  exhausted model nested child listed :=
    (held.exhausted model nested child listed).mono fun other => Or.imp_right (knows other)

/-- A member that is kept. -/
theorem BodyCited.keep {typed : Typed} {type : TypeExpr} {models : LocalModels Declaration}
    (held : BodyCited graph settings scope depth body log state)
    (base : type.base = typed.type.base) (absorbed : body.models.absorb? typed.model = .ok models)
    (cited : Cited events (.ok (some typed)))
    (again : ∀ model other, typed.model = some model → other ∈ body.models →
      other.owner = model.owner → Silent events)
    (fresh : ∀ model, typed.model = some model → ∀ child ∈ (graph.kind model.owner).children,
      Exhausted graph settings (fun other => other = model.owner ∨ (next.within scope).Knows other)
        (depth + 2) none child)
    (knows : ∀ other, (state.within scope).Knows other → (next.within scope).Knows other) :
    BodyCited graph settings scope depth ⟨body.types ++ [type], models⟩ (log ++ events) next := by
  obtain ⟨kept, joins⟩ : (∀ model ∈ body.models, model ∈ models) ∧
      ∀ model, typed.model = some model → model ∈ models ∨ Silent events := by
    cases holds : typed.model with
    | none =>
        rw [holds] at absorbed
        cases absorbed
        exact ⟨fun _ nested => nested, nofun⟩
    | some model =>
        rw [holds] at absorbed
        rcases LocalModels.absorb_ok absorbed with ⟨rfl, other, nested, same⟩ | ⟨rfl, _, _⟩
        · refine ⟨fun _ nested => nested, ?_⟩
          rintro _ ⟨⟩
          exact .inr (again model other holds nested same)
        · refine ⟨fun _ nested => List.mem_append_left _ nested, ?_⟩
          rintro _ ⟨⟩
          exact .inl (List.mem_append_right _ (List.mem_singleton_self _))
  refine ⟨(held.cited.imp fun id cites => citesWithin_grow cites kept).append ?_,
    fun model nested child listed => ?_⟩
  · intro id definition declared
    obtain ⟨_, ⟨⟩, (owned | ⟨model, holds, cites⟩) | beside⟩ := cited id definition declared
    · exact .inl (.inl ⟨type, List.mem_append_right _ (List.mem_singleton_self _),
        (TypeExpr.owner?_of_base base).trans owned⟩)
    · rcases joins model holds with nested | silent
      · exact .inl (.inr ⟨model, nested, cites⟩)
      · exact absurd declared (silent id definition)
    · exact .inr beside
  · rcases LocalModels.mem_of_absorb? absorbed nested with nested | holds
    · exact (held.exhausted model nested child listed).mono fun other => Or.imp_right (knows other)
    · exact fresh model holds child listed

variable {spared : Set Failure}

/-- Whatever the members of a declaration declare for the whole file is cited in the declaration, or
beside it; and a declaration that comes to nothing declares nothing. -/
theorem Declares.cited (spares : Spares Set.univ spared)
    (below : ∀ {id site state events verdict next},
      Derives graph settings budget id site state events verdict next →
      Unseen graph Set.univ id state → next.Clean spared →
      (∀ failure, verdict = .error failure → failure ∈ spared) → Cited events verdict)
    (declares : Declares graph settings (Derives graph settings budget) id name description scope
      depth state events definition next)
    (outside : ∀ other, other ≠ id → Relation.ReflTransGen graph.Refers id other →
      graph.Valueless Set.univ other → (state.within scope).Hides other)
    (clean : next.Clean spared) :
    (definition = none → Silent events) ∧
    ∀ declaration, definition = some declaration → CitedBy declaration.Cites events := by
  refine ⟨?_, ?_⟩
  · rintro rfl
    have valueless := declares.valueless_of_clean spares
      (fun derived => derived.valueless_of_untyped spares) clean
    exact declares.silent Derives.silent outside fun child listed =>
      .valueless (valueless.refers listed)
  have invariant := declares.unseen_invariant (fun derived unseen => derived.respects unseen) outside
    (I := fun _ body log last => last.Clean spared →
      BodyCited graph settings scope depth body log last) (fun _ => .start) ?_
  · obtain ⟨⟨body, held, declared, _⟩, _⟩ := invariant
    intro declaration same other given listed
    rw [Declaration.cites_iff, (declared declaration same).1]
    exact (held clean).cited other given listed
  intro done before after log child site middle events verdict next failure location member unseen derived
    joins held clean
  obtain ⟨clean, noted⟩ := clean.of_note
  have held := held (clean.of_prefix derived.diagnostics_prefix)
  obtain ⟨deeper, _⟩ := member.site_eq
  have knows (other : NodeId) :
      (((next.within middle.scope).note location failure).within scope).Knows other ↔
        (next.within scope).Knows other := by
    simp only [State.Knows, State.within_globals, State.note_globals, State.within_scope]
  have grows (other : NodeId) (known : (middle.within scope).Knows other) :
      (((next.within middle.scope).note location failure).within scope).Knows other :=
    (knows other).mpr (known.mono derived.evolves)
  have below := below derived unseen clean
  cases joins with
  | absent => exact held.quiet ((below (by rintro _ ⟨⟩)).silent (by rintro _ ⟨⟩)) grows
  | failed =>
      exact held.quiet ((below (by rintro _ ⟨⟩; exact noted _ rfl)).silent (by rintro _ ⟨⟩)) grows
  | refused => exact absurd (noted _ rfl) (spares.collision _)
  | @kept typed type models base absorbed =>
      refine held.keep base absorbed (below (by rintro _ ⟨⟩)) ?_ ?_ grows
      · intro model other holds nested same
        refine derived.silent_nested holds unseen fun child listed => ?_
        rw [deeper, ← same]
        exact held.exhausted other nested child (same ▸ listed)
      · intro model holds child listed
        have exhausted := derived.exhausts_nested spares holds clean child listed
        rw [deeper] at exhausted
        exact exhausted.mono fun other => Or.imp_right (knows other).mpr

/-- Where no name is taken, whatever is declared for the whole file is cited. -/
theorem Derives.cited (spares : Spares Set.univ spared)
    (derived : Derives graph settings budget id site state events verdict next)
    (unseen : Unseen graph Set.univ id state) (clean : next.Clean spared)
    (noted : ∀ failure, verdict = .error failure → failure ∈ spared) : Cited events verdict := by
  refine Derives.induction (P := fun id _ state events verdict next =>
    Unseen graph Set.univ id state → next.Clean spared →
    (∀ failure, verdict = .error failure → failure ∈ spared) → Cited events verdict)
    ?_ ?_ ?_ derived unseen clean noted
  · exact fun _ _ _ => .of_silent .nil
  · exact fun cited unseen clean noted => cited unseen.enter clean noted
  intro budget id site state events verdict next below step unseen clean noted
  cases step with
  | primitive _ | empty _ | unsupported _ | endless _ _ | promoted _ _ | visible _ _ _ =>
      exact .of_silent .nil
  | optional kind chain inner =>
      have reaches := Graph.refers_of_leads (reaches_of_unwrap? chain)
      have cited := below inner (unseen.of_reaches reaches) clean (spared_of_map noted)
      exact cited.map (Typed.mark_base _) (Typed.mark_model _)
  | collection kind inner =>
      have leads := Graph.leads_of_collection kind
      have cited := below inner (unseen.of_reaches (.single leads.refers)) clean (spared_of_map noted)
      exact cited.map (Typed.collect_base _) (Typed.collect_model _)
  | transform kind inner =>
      have leads := Graph.leads_of_transform kind
      exact below inner (unseen.of_reaches (.single leads.refers)) clean noted
  | collided _ _ _ _ registered =>
      obtain ⟨rfl, _⟩ := GlobalModels.register_error registered
      exact absurd (noted _ rfl) (spares.collision _)
  | void fresh _ same declares =>
      subst same
      exact .of_silent (((declares.cited spares below (unseen.reserved _) clean).1 rfl).withdraw id)
  | hollow fresh _ same declares =>
      subst same
      exact .of_silent ((declares.cited spares below (unseen.shown _) clean).1 rfl)
  | nested fresh _ same declares =>
      subst same
      intro other given listed
      refine ⟨_, rfl, ((declares.cited spares below (unseen.shown _) clean).2 _ rfl other given
        listed).imp_left fun cites => .inr ⟨_, rfl, cites⟩⟩
  | accepted fresh _ same declares registered =>
      subst same
      intro other given listed
      rcases List.mem_append.mp listed with listed | listed
      · refine ⟨_, rfl, .inr ?_⟩
        rcases (declares.cited spares below (unseen.reserved _) clean).2 _ rfl other given listed
          with cites | beside
        · have apart := (declares.new Derives.new).apart listed
          exact ⟨id, _, List.mem_append_right _ (List.mem_singleton_self _), apart, cites⟩
        · exact beside.mono (List.subset_append_left _ _)
      · cases List.mem_singleton.mp listed
        exact ⟨_, rfl, .inl (.inl rfl)⟩

end

end RouterClient.Typing
