import RouterClient.Document.Lowering
import RouterClient.Proofs.Typing.Drafts
import RouterClient.Proofs.Typing.Registry

/-! # Mentions of global models

A declaration may mention a node while the node's own name is only reserved.  If the node is
withdrawn later on, a declaration that has been accepted in between keeps the mention.  This is the
only way in which a mention of a global model comes to nothing.
-/

namespace RouterClient.Typing

open Model (GlobalModels LocalModel)
open Schema (NodeId Graph)
open Code (Body Declaration TypeExpr)

/-- A mention of a global model is by the name of the node, and the node can be mentioned by that
name unless it has been withdrawn on the way. -/
def Accounted (log : List Event) (globals : GlobalModels Declaration) (type : TypeExpr) : Prop :=
  ∀ owner name, type.base = .model owner name .global →
    globals.nameOf owner = some name ∧
      (globals.globalName owner = some name ∨ .withdrawn owner ∈ log)

/-- The mentions in a declaration, at any depth. -/
def AllAccounted (log : List Event) (globals : GlobalModels Declaration)
    (definition : Declaration) : Prop :=
  ∀ body ∈ definition.bodies, ∀ type ∈ body.types, Accounted log globals type

structure BodyAccounted (log : List Event) (globals : GlobalModels Declaration)
    (body : Body) : Prop where
  types : ∀ type ∈ body.types, Accounted log globals type
  models : ∀ model ∈ body.models, AllAccounted log globals model.definition

/-- The model under a name is the one declared for a node, or has the same text. -/
def Recorded (log : List Event) (globals : GlobalModels Declaration) (id : NodeId)
    (name : String) : Prop :=
  ∃ definition model, .declared id definition ∈ log ∧
    globals.models.get? name = some model ∧ model.definition.text = definition.text

/-- What a typing call does to the declarations and the mentionable nodes. -/
structure Tracked (before : GlobalModels Declaration) (log : List Event)
    (after : GlobalModels Declaration) : Prop where
  models : ∀ entry ∈ after.models,
    entry ∈ before.models ∨ AllAccounted log after entry.2.definition
  promoted : ∀ id name, after.globalName id = some name →
    before.globalName id = some name ∨ Recorded log after id name

/-- What is known of the mentions after a verdict. -/
structure Accounts (before : GlobalModels Declaration) (log : List Event) (verdict : Verdict)
    (after : GlobalModels Declaration) : Prop where
  tracked : Tracked before log after
  type : ∀ typed, verdict = .ok (some typed) → Accounted log after typed.type
  model : ∀ typed model, verdict = .ok (some typed) → typed.model = some model →
    AllAccounted log after model.definition

section

variable {graph : Graph} {before middle after : GlobalModels Declaration}
  {log first second : List Event} {id : NodeId} {name proposal : String}

/-- A mention stays accounted for as long as names are kept and no node becomes unmentionable
without being withdrawn. -/
theorem Accounted.mono {type : TypeExpr} (accounted : Accounted first before type)
    (grown : first ⊆ second) (names : NamesKept before after)
    (promoted : ∀ id name, before.globalName id = some name →
      after.globalName id = some name ∨ .withdrawn id ∈ second) :
    Accounted second after type := by
  intro owner name mention
  obtain ⟨named, known | withdrawn⟩ := accounted owner name mention
  · exact ⟨names owner name named, promoted owner name known⟩
  · exact ⟨names owner name named, .inr (grown withdrawn)⟩

theorem AllAccounted.mono {definition : Declaration}
    (accounted : AllAccounted first before definition)
    (grown : first ⊆ second) (names : NamesKept before after)
    (promoted : ∀ id name, before.globalName id = some name →
      after.globalName id = some name ∨ .withdrawn id ∈ second) :
    AllAccounted second after definition := by
  intro body inside type mentioned
  exact (accounted body inside type mentioned).mono grown names promoted

theorem BodyAccounted.all {definition : Declaration}
    (accounted : BodyAccounted log after definition.body) : AllAccounted log after definition :=
  Declaration.forall_bodies.mpr ⟨accounted.types, accounted.models⟩

theorem Recorded.mono (recorded : Recorded first before id name) (grown : first ⊆ second)
    (models : before.models <+: after.models) : Recorded second after id name := by
  obtain ⟨definition, model, declared, found, same⟩ := recorded
  obtain ⟨more, models⟩ := models
  refine ⟨definition, model, grown declared, ?_, same⟩
  rw [← models, Table.get?_append, found, Option.some_or]

theorem Tracked.refl (globals : GlobalModels Declaration) : Tracked globals [] globals where
  models _ member := .inl member
  promoted _ _ known := .inl known

theorem Tracked.trans (left : Tracked before first middle) (right : Tracked middle second after)
    (evolves : Evolves graph middle after) : Tracked before (first ++ second) after where
  models entry member := by
    have kept {id name} (known : middle.globalName id = some name) :
        after.globalName id = some name ∨ .withdrawn id ∈ first ++ second :=
      .inl (evolves.promoted id name known)
    rcases right.models entry member with member | accounted
    · rcases left.models entry member with member | accounted
      · exact .inl member
      · exact .inr (accounted.mono (List.subset_append_left first second) evolves.names
          fun _ _ => kept)
    · exact .inr (accounted.mono (List.subset_append_right first second)
        (fun _ _ named => named) fun _ _ known => .inl known)
  promoted id name known := by
    rcases right.promoted id name known with known | recorded
    · rcases left.promoted id name known with known | recorded
      · exact .inl known
      · exact .inr (recorded.mono (List.subset_append_left first second) evolves.models)
    · exact .inr (recorded.mono (List.subset_append_right first second) List.prefix_rfl)

/-- Naming a node changes neither declarations nor mentions. -/
theorem Tracked.resolveName (globals : GlobalModels Declaration) (id : NodeId)
    (proposal : String) : Tracked globals [] (globals.resolveName id proposal).2 where
  models entry member := by
    rw [GlobalModels.models_resolveName] at member
    exact .inl member
  promoted other name known := by
    rw [GlobalModels.globalName_resolveName] at known
    exact .inl known

/-- The same across a reservation that is either undone or settled. -/
theorem Tracked.close {inner closed : GlobalModels Declaration}
    (body : Tracked (before.reserveOwn id proposal) first inner)
    (grown : first ⊆ second) (names : NamesKept inner closed)
    (kept : ∀ id name, inner.globalName id = some name →
      closed.globalName id = some name ∨ .withdrawn id ∈ second)
    (extended : inner.models <+: closed.models)
    (models : ∀ entry ∈ closed.models,
      entry ∈ inner.models ∨ AllAccounted second closed entry.2.definition)
    (others : ∀ other, id ≠ other → closed.globalName other = inner.globalName other)
    (own : ∀ name, closed.globalName id = some name → Recorded second closed id name) :
    Tracked before second closed where
  models entry member := by
    rcases models entry member with member | accounted
    · rcases body.models entry member with member | accounted
      · rw [GlobalModels.models_reserveOwn] at member
        exact .inl member
      · exact .inr (accounted.mono grown names kept)
    · exact .inr accounted
  promoted other name known := by
    by_cases same : id = other
    · subst same
      exact .inr (own name known)
    · rw [others other same] at known
      rcases body.promoted other name known with known | recorded
      · rw [GlobalModels.globalName_reserveOwn_of_ne _ _ _ same] at known
        exact .inl known
      · exact .inr (recorded.mono grown extended)

/-- A member of a declaration adds only mentions that are accounted for. -/
theorem BodyAccounted.grows {body grown : Body} {verdict : Verdict}
    (accounted : BodyAccounted first middle body) (evolves : Evolves graph middle after)
    (accounts : Accounts middle second verdict after) (grows : Grows body verdict grown) :
    BodyAccounted (first ++ second) after grown := by
  have kept (id : NodeId) (name : String) (known : middle.globalName id = some name) :
      after.globalName id = some name ∨ .withdrawn id ∈ first ++ second :=
    .inl (evolves.promoted id name known)
  have old : BodyAccounted (first ++ second) after body := by
    have left := List.subset_append_left first second
    refine ⟨?_, ?_⟩
    · intro type mentioned
      exact (accounted.types type mentioned).mono left evolves.names kept
    · intro model nested
      exact (accounted.models model nested).mono left evolves.names kept
  have right := List.subset_append_right first second
  cases grows with
  | same => exact old
  | @more typed type models outcome based absorbed =>
      refine ⟨?_, ?_⟩
      · intro other mentioned
        rcases List.mem_append.mp mentioned with mentioned | mentioned
        · exact old.types other mentioned
        · obtain rfl := List.mem_singleton.mp mentioned
          intro owner name mention
          exact (accounts.type typed outcome).mono right (fun _ _ named => named)
            (fun _ _ known => .inl known) owner name (based ▸ mention)
      · intro model nested
        rcases Model.LocalModels.mem_of_absorb? absorbed nested with nested | added
        · exact old.models model nested
        · exact (accounts.model typed model outcome added).mono right (fun _ _ named => named)
            fun _ _ known => .inl known

theorem Accounts.silent {verdict : Verdict} (tracked : Tracked before log after)
    (nothing : ∀ typed, verdict ≠ .ok (some typed)) : Accounts before log verdict after where
  tracked := tracked
  type typed outcome := absurd outcome (nothing typed)
  model typed _ outcome := absurd outcome (nothing typed)

theorem Accounts.of_mention {typed : Typed} (tracked : Tracked before log after)
    (accounted : Accounted log after typed.type) (whole : typed.model = none) :
    Accounts before log (.ok (some typed)) after where
  tracked := tracked
  type other same := by
    cases same
    exact accounted
  model other model same holds := by
    cases same
    rw [whole] at holds
    cases holds

theorem Accounts.map {verdict : Verdict} {f : Typed → Typed}
    (accounts : Accounts before log verdict after)
    (bases : ∀ typed, (f typed).type.base = typed.type.base)
    (models : ∀ typed, (f typed).model = typed.model) :
    Accounts before log (verdict.map (Option.map f)) after := by
  rcases verdict with failure | ⟨_ | inner⟩
  · exact .silent accounts.tracked nofun
  · exact .silent accounts.tracked nofun
  · refine ⟨accounts.tracked, ?_, ?_⟩
    · intro typed same owner name mention
      cases same
      exact accounts.type inner rfl owner name ((bases inner).symm.trans mention)
    · intro typed model same holds
      cases same
      exact accounts.model inner model rfl ((models inner).symm.trans holds)

end

section

variable {graph : Graph} {settings : Settings} {budget : Nat} {id : NodeId} {site : Site}
  {state next : State} {events : List Event}

theorem Declares.accounts {name : String} {description : Option String} {scope : Model.Scope}
    {depth : Nat} {definition : Option Declaration}
    (below : ∀ {id site state events verdict next},
      Derives graph settings budget id site state events verdict next →
      Consistent state.globals → Accounts state.globals events verdict next.globals)
    (declares : Declares graph settings (Derives graph settings budget) id name description scope
      depth state events definition next)
    (consistent : Consistent state.globals) :
    Tracked state.globals events next.globals ∧
      ∀ declaration, definition = some declaration →
        AllAccounted events next.globals declaration := by
  obtain ⟨body, ⟨_, tracked, accounted⟩, declared⟩ := declares.body_invariant
    (I := fun body log after => Evolves graph state.globals after.globals ∧
      Tracked state.globals log after.globals ∧ BodyAccounted log after.globals body)
    ⟨.refl graph _, .refl _, ⟨by simp, by simp⟩⟩ (by
      intro _ _ _ _ _ _ _ _ _ location failure derived grows facts
      obtain ⟨evolves, tracked, accounted⟩ := facts
      simp only [State.note_globals, State.within_globals]
      have step := derived.evolves
      have accounts := below derived (evolves.consistent consistent)
      exact ⟨evolves.trans step, tracked.trans accounts.tracked step,
        accounted.grows step accounts grows⟩)
  refine ⟨tracked, ?_⟩
  intro declaration same
  obtain ⟨rfl, _⟩ := declared declaration same
  exact accounted.all

/-- A reservation that is undone leaves the node withdrawn. -/
theorem Tracked.abandon {before inner : GlobalModels Declaration} {proposal : String}
    (body : Tracked (before.reserveOwn id proposal) events inner) :
    Tracked before (events ++ [.withdrawn id]) (inner.abandon id) := by
  refine body.close (List.subset_append_left _ _) (fun _ _ named => named) ?_ List.prefix_rfl
    (fun _ member => .inl member) ?_ ?_
  · intro other name known
    by_cases same : id = other
    · subst same
      exact .inr (List.mem_append_right _ List.mem_cons_self)
    · exact .inl ((GlobalModels.globalName_abandon_of_ne inner same).trans known)
  · intro other different
    exact GlobalModels.globalName_abandon_of_ne inner different
  · intro name known
    rw [GlobalModels.globalName_abandon_self] at known
    cases known

/-- A reservation that is settled leaves the node with a declaration that is its own, or has the
text of its own. -/
theorem Tracked.register {before inner closed : GlobalModels Declaration} {proposal : String}
    {definition : Declaration} (consistent : Consistent before)
    (fresh : before.globalName id = none)
    (evolves : Evolves graph (before.reserveOwn id proposal) inner)
    (body : Tracked (before.reserveOwn id proposal) events inner)
    (accounted : AllAccounted events inner definition)
    (registered : inner.register id (before.resolveName id proposal).1 definition =
      (.ok (), closed)) :
    Tracked before (events ++ [.declared id definition]) closed := by
  have accepts := GlobalModels.accepts_of_register registered
  have reserved := before.globalName_reserveOwn_self id proposal
  have grown := List.subset_append_left events [Event.declared id definition]
  have names : NamesKept inner closed := fun other _ named => (accepts.names other).trans named
  have kept (other : NodeId) (name : String) (known : inner.globalName other = some name) :
      closed.globalName other = some name ∨
        .withdrawn other ∈ events ++ [.declared id definition] := by
    left
    by_cases self : id = other
    · subst self
      rw [accepts.own, ← evolves.promoted id _ reserved, known]
    · rw [accepts.others self, known]
  -- A node that is only reserved has no model, so the one under its name is its own or its text's.
  have unowned (name : String) (model : Model.GlobalModel Declaration)
      (member : (name, model) ∈ inner.models) : model.owner ≠ id := by
    intro own
    subst own
    rcases evolves.owned _ member with member | ⟨free, _⟩
    · rw [GlobalModels.models_reserveOwn] at member
      have owned := consistent.owned _ member
      rw [fresh] at owned
      cases owned
    · rw [reserved] at free
      cases free
  apply body.close grown names kept accepts.models
  · intro entry member
    rcases accepts.added entry member with member | rfl
    · exact .inl member
    · exact .inr (accounted.mono grown names kept)
  · intro other different
    exact accepts.others different
  · intro name known
    obtain rfl := Option.some.inj (accepts.own.symm.trans known)
    obtain ⟨model, found, same⟩ := accepts.found
    refine ⟨definition, model, List.mem_append_right _ List.mem_cons_self, found, ?_⟩
    rcases accepts.added _ (Table.mem_of_get? found) with member | new
    · rcases same with owned | equal
      · exact absurd owned (unowned _ model member)
      · exact eq_of_beq equal
    · rw [(Prod.mk.inj new).2]

/-- A type that mentions no global model has nothing to account for. -/
theorem Accounted.of_base {log : List Event} {globals : GlobalModels Declaration} {type : TypeExpr}
    (other : ∀ owner name, type.base ≠ .model owner name .global) : Accounted log globals type := by
  intro owner name mention
  exact absurd mention (other owner name)

theorem Derives.accounts {verdict : Verdict}
    (derived : Derives graph settings budget id site state events verdict next) :
    Consistent state.globals → Accounts state.globals events verdict next.globals := by
  refine Derives.induction (P := fun _ _ state events verdict next =>
    Consistent state.globals → Accounts state.globals events verdict next.globals)
    ?_ (fun accounts => accounts) ?_ derived
  · intro _ _ _ _
    exact .silent (.refl _) nofun
  intro _ id site state _ _ _ below step consistent
  cases step with
  | primitive _ => exact .of_mention (.refl _) (.of_base nofun) rfl
  | empty _ | unsupported _ | endless _ _ =>
      exact .silent (.refl _) nofun
  | optional _ _ inner =>
      exact (below inner consistent).map (Typed.mark_base _) (Typed.mark_model _)
  | collection _ inner =>
      exact (below inner consistent).map (Typed.collect_base _) (Typed.collect_model _)
  | transform _ inner => exact below inner consistent
  | promoted _ known =>
      refine .of_mention (.resolveName _ _ _) ?_ rfl
      intro owner name mention
      cases mention
      have named := consistent.named _ _ known
      exact ⟨(Evolves.resolveName graph _ _ _).names _ _ named,
        .inl ((State.named_globalName _ _ _ _).trans known)⟩
  | visible _ _ _ => exact .of_mention (.resolveName _ _ _) (.of_base nofun) rfl
  | accepted fresh _ same declares registered =>
      subst same
      -- The members are typed while the node is only reserved, and may mention it already.
      have reserved := consistent.reserveOwn fresh.unpromoted (proposedName graph id site)
      obtain ⟨tracked, accounted⟩ := declares.accounts below reserved
      have evolves := declares.evolves Derives.evolves
      have accepts := GlobalModels.accepts_of_register registered
      refine .of_mention (tracked.register consistent fresh.unpromoted evolves (accounted _ rfl)
        registered) ?_ rfl
      intro owner name mention
      cases mention
      exact ⟨(accepts.names id).trans evolves.reserved_nameOf, .inl accepts.own⟩
  | collided fresh _ _ declares registered =>
      obtain ⟨_, rfl⟩ := GlobalModels.register_error registered
      have reserved := consistent.reserveOwn fresh.unpromoted (proposedName graph id site)
      obtain ⟨tracked, _⟩ := declares.accounts below reserved
      exact .silent tracked.abandon nofun
  | void fresh _ _ declares =>
      have reserved := consistent.reserveOwn fresh.unpromoted (proposedName graph id site)
      obtain ⟨tracked, _⟩ := declares.accounts below reserved
      exact .silent tracked.abandon nofun
  | nested _ _ _ declares =>
      have naming := Evolves.resolveName graph state.globals id (proposedName graph id site)
      obtain ⟨tracked, accounted⟩ := declares.accounts below (naming.consistent consistent)
      refine ⟨(Tracked.resolveName _ _ _).trans tracked (declares.evolves Derives.evolves), ?_, ?_⟩
      · intro typed same
        cases same
        exact .of_base nofun
      · intro typed model same holds
        cases same
        cases holds
        exact accounted _ rfl
  | hollow _ _ _ declares =>
      have naming := Evolves.resolveName graph state.globals id (proposedName graph id site)
      obtain ⟨tracked, _⟩ := declares.accounts below (naming.consistent consistent)
      have evolves := declares.evolves Derives.evolves
      exact .silent ((Tracked.resolveName _ _ _).trans tracked evolves) nofun

end

theorem Run.tracked {graph : Graph} {settings : Settings} {state last : State} {calls : List Call}
    {log : List Event} (run : Run graph settings state calls log last) :
    Consistent state.globals → Tracked state.globals log last.globals := by
  induction run with
  | nil =>
      intro _
      exact .refl _
  | cons derived run ih =>
      intro consistent
      have first := (derived.accounts consistent).tracked
      have second := ih (derived.evolves.consistent consistent)
      exact first.trans second run.evolves

/-- A declaration that is held for the whole file mentions a node by a global name. -/
def MentionedGlobally (globals : GlobalModels Declaration) (owner : NodeId) (name : String) :
    Prop :=
  ∃ entry ∈ globals.models, ∃ body ∈ entry.2.definition.bodies, ∃ type ∈ body.types,
    type.base = .model owner name .global

instance (globals : GlobalModels Declaration) (owner : NodeId) (name : String) :
    Decidable (MentionedGlobally globals owner name) :=
  inferInstanceAs (Decidable (∃ entry ∈ globals.models, ∃ body ∈ entry.2.definition.bodies,
    ∃ type ∈ body.types, type.base = .model owner name .global))

/-- Over any calls on one state, every mention of a global model can be followed to the declaration
of its node if and only if each mentioned node that is withdrawn on the way is declared after
all. -/
theorem mentions_followed_iff (graph : Graph) (settings : Settings) (calls : List Call) :
    let globals := (afterCalls graph settings calls).globals
    (∃ log, Run graph settings {} calls log (afterCalls graph settings calls)) ∧
    ∀ log, Run graph settings {} calls log (afterCalls graph settings calls) →
      ((∀ owner name, MentionedGlobally globals owner name →
          globals.globalName owner = some name ∧ Recorded log globals owner name) ↔
        ∀ owner name, MentionedGlobally globals owner name → .withdrawn owner ∈ log →
          (globals.globalName owner).isSome) := by
  intro globals
  refine ⟨exists_run graph settings calls {}, ?_⟩
  intro log run
  have tracked := run.tracked .empty
  have consistent := run.evolves.consistent .empty
  constructor
  · intro followed owner name mention _
    rw [(followed owner name mention).1]
    rfl
  · intro restored owner name mention
    obtain ⟨entry, member, body, inside, type, mentioned, based⟩ := mention
    have promoted : globals.globalName owner = some name := by
      rcases tracked.models entry member with absent | accounted
      · cases absent
      · obtain ⟨named, known | withdrawn⟩ := accounted body inside type mentioned owner name based
        · exact known
        · have back := restored owner name ⟨entry, member, body, inside, type, mentioned, based⟩
            withdrawn
          obtain ⟨other, known⟩ := Option.isSome_iff_exists.mp back
          obtain rfl := Option.some.inj (named.symm.trans (consistent.named owner other known))
          exact known
    refine ⟨promoted, ?_⟩
    rcases tracked.promoted owner name promoted with absent | recorded
    · cases absent
    · exact recorded

/-- Two objects are called `A`, and the second and `B` mention each other.  `B` is accepted while
`A` is reserved for the second object, which is then refused its name. -/
def refusedDocument : Written.Document where
  schemas := [
    ("A1", {
      typeName := some "object", name := some "A"
      shape := some [("x", { typeName := some "string" })] }),
    ("A2", {
      typeName := some "object", name := some "A"
      shape := some [("b", { reference := some "B" })] }),
    ("B", {
      typeName := some "object", name := some "B"
      shape := some [("a", {
        typeName := some "optional", inner := some { reference := some "A2" } })] })]

/-- The nodes of the three definitions, and those of the schemas in place. -/
def refusedGraph : Graph where
  nodes := #[
    { kind := .object [("x", ⟨3⟩)], label := { name := some "A" } },
    { kind := .object [("b", ⟨2⟩)], label := { name := some "A" } },
    { kind := .object [("a", ⟨4⟩)], label := { name := some "B" } },
    { kind := .primitive .string },
    { kind := .optional ⟨1⟩ }]

/-- The declaration of `B` goes on mentioning the second object, which has no declaration. -/
theorem refused_still_mentioned :
    Lowering.document "<value>" refusedDocument =
      .ok { graph := refusedGraph, definitions := [("A1", ⟨0⟩), ("A2", ⟨1⟩), ("B", ⟨2⟩)] } ∧
    let calls : List Call := [⟨⟨0⟩, { fallback := "Root", scope := {} }⟩,
      ⟨⟨1⟩, { fallback := "Root", scope := {} }⟩]
    let globals := (afterCalls refusedGraph {} calls).globals
    MentionedGlobally globals ⟨1⟩ "A" ∧ globals.globalName ⟨1⟩ = none := by
  refine ⟨rfl, ?_⟩
  decide +kernel

end RouterClient.Typing
