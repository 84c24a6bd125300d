import RouterClient.Proofs.Typing.Drafts
import RouterClient.Proofs.Typing.Registry

/-! # The names in a declaration

A node is named once, so a member that mentions a node whose model is nested in the same
declaration does so by the name of that model: the node was hidden when the members were typed, and
no other name can have come from the scope.  Hence the names in every body go together.
-/

namespace RouterClient.Code

theorem TypeExpr.owner?_of_base {type other : TypeExpr} (same : type.base = other.base) :
    type.owner? = other.owner? := by
  unfold owner?
  rw [same]

/-- The names in all bodies of a declaration go together. -/
def Declaration.Coherent (declaration : Declaration) : Prop :=
  ∀ body ∈ declaration.bodies, body.Coherent

end RouterClient.Code

namespace RouterClient.Typing

open Model (GlobalModels LocalModel LocalModels Scope)
open Schema (NodeId Graph)
open Code (Body Declaration TypeExpr)

/-- A model to be nested where a scope is in force: its node is hidden there, and it is declared
under the name of its node. -/
structure Nestable (scope : Scope) (globals : GlobalModels Declaration)
    (model : LocalModel Declaration) : Prop where
  hidden : scope.lookup model.owner = none
  named : globals.nameOf model.owner = some model.name
  titled : model.definition.heading.name = model.name
  coherent : model.definition.Coherent

/-- A type mentions a node by the name that the scope has for it or by the name of the node. -/
def NamedIn (scope : Scope) (globals : GlobalModels Declaration) (type : TypeExpr) : Prop :=
  ∀ owner, type.owner? = some owner →
    scope.lookup owner = some type.base.text ∨ globals.nameOf owner = some type.base.text

structure TypedIn (scope : Scope) (globals : GlobalModels Declaration) (typed : Typed) : Prop where
  mention : NamedIn scope globals typed.type
  model : ∀ model, typed.model = some model → Nestable scope globals model

structure BodyIn (scope : Scope) (globals : GlobalModels Declaration) (body : Body) : Prop where
  owners : (body.models.map LocalModel.owner).Nodup
  names : (body.models.map LocalModel.name).Nodup
  models : ∀ model ∈ body.models, Nestable scope globals model
  mentions : ∀ type ∈ body.types, NamedIn scope globals type

section

variable {scope : Scope} {before after : GlobalModels Declaration} {body : Body}

theorem Nestable.mono {model : LocalModel Declaration} (nestable : Nestable scope before model)
    (names : NamesKept before after) :
    Nestable scope after model :=
  ⟨nestable.hidden, names _ _ nestable.named, nestable.titled, nestable.coherent⟩

theorem NamedIn.mono {type : TypeExpr} (mention : NamedIn scope before type)
    (names : NamesKept before after) :
    NamedIn scope after type := by
  intro owner owned
  rcases mention owner owned with visible | named
  · exact .inl visible
  · exact .inr (names _ _ named)

theorem TypedIn.mono {typed : Typed} (facts : TypedIn scope before typed)
    (names : NamesKept before after) :
    TypedIn scope after typed :=
  ⟨facts.mention.mono names, fun model holds => (facts.model model holds).mono names⟩

theorem BodyIn.mono (facts : BodyIn scope before body)
    (names : NamesKept before after) :
    BodyIn scope after body where
  owners := facts.owners
  names := facts.names
  models model nested := (facts.models model nested).mono names
  mentions type mentioned := (facts.mentions type mentioned).mono names

theorem BodyIn.empty (scope : Scope) (globals : GlobalModels Declaration) :
    BodyIn scope globals {} where
  owners := List.nodup_nil
  names := List.nodup_nil
  models _ nested := by cases nested
  mentions _ mentioned := by cases mentioned

/-- A nested model's node is hidden, so whoever mentions it here has its name. -/
theorem BodyIn.coherent (facts : BodyIn scope after body) : body.Coherent where
  owners := facts.owners
  names := facts.names
  titled model nested := (facts.models model nested).titled
  own type mentioned model nested owned := by
    have nestable := facts.models model nested
    rcases facts.mentions type mentioned model.owner owned with visible | named
    · rw [nestable.hidden] at visible
      cases visible
    · exact Option.some.inj (named.symm.trans nestable.named)

theorem BodyIn.all {declaration : Declaration} (facts : BodyIn scope after declaration.body) :
    declaration.Coherent :=
  Declaration.forall_bodies.mpr
    ⟨facts.coherent, fun model nested => (facts.models model nested).coherent⟩

theorem BodyIn.mention {type : TypeExpr} (facts : BodyIn scope after body)
    (named : NamedIn scope after type) :
    BodyIn scope after ⟨body.types ++ [type], body.models⟩ where
  owners := facts.owners
  names := facts.names
  models := facts.models
  mentions other mentioned := by
    rcases List.mem_append.mp mentioned with mentioned | mentioned
    · exact facts.mentions other mentioned
    · obtain rfl := List.mem_singleton.mp mentioned
      exact named

/-- A model is nested in a body, or its node has one there. -/
theorem BodyIn.absorb {models : LocalModels Declaration} {model? : Option (LocalModel Declaration)}
    (facts : BodyIn scope after body)
    (nestable : ∀ model, model? = some model → Nestable scope after model)
    (absorbed : body.models.absorb? model? = .ok models) :
    BodyIn scope after ⟨body.types, models⟩ := by
  cases model? with
  | none =>
      cases absorbed
      exact facts
  | some model =>
      rcases LocalModels.absorb_ok absorbed with ⟨rfl, _⟩ | ⟨rfl, unowned, unnamed⟩
      · exact facts
      · refine ⟨?_, ?_, ?_, facts.mentions⟩
        · rw [List.map_append]
          refine List.nodup_append.mpr ⟨facts.owners, by simp, ?_⟩
          simpa using unowned
        · rw [List.map_append]
          refine List.nodup_append.mpr ⟨facts.names, by simp, ?_⟩
          simpa using unnamed
        · intro other nested
          rcases List.mem_append.mp nested with nested | nested
          · exact facts.models other nested
          · obtain rfl := List.mem_singleton.mp nested
            exact nestable other rfl

/-- A type joins a body, and its model is nested there. -/
theorem BodyIn.add {typed : Typed} {type : TypeExpr} {models : LocalModels Declaration}
    (facts : BodyIn scope after body) (joins : TypedIn scope after typed)
    (based : type.base = typed.type.base)
    (absorbed : body.models.absorb? typed.model = .ok models) :
    BodyIn scope after ⟨body.types ++ [type], models⟩ := by
  apply (facts.absorb joins.model absorbed).mention
  intro owner owned
  rw [based]
  exact joins.mention owner ((TypeExpr.owner?_of_base based).symm.trans owned)

end

/-- A node that is mentioned by a known name, with nothing to be nested. -/
theorem TypedIn.of_mention {scope : Scope} {globals : GlobalModels Declaration} {id : NodeId}
    {name : String} {binding : Code.Binding}
    (known : scope.lookup id = some name ∨ globals.nameOf id = some name) :
    TypedIn scope globals { type := .model id name binding } := by
  refine ⟨?_, ?_⟩
  · intro owner owned
    cases owned
    exact known
  · exact nofun

/-- The names go together in the declarations that are new. -/
def AddsCoherent (before after : GlobalModels Declaration) : Prop :=
  ∀ entry ∈ after.models, entry ∈ before.models ∨ entry.2.definition.Coherent

theorem AddsCoherent.of_models {before after : GlobalModels Declaration}
    (same : after.models = before.models) : AddsCoherent before after := by
  intro entry member
  rw [same] at member
  exact .inl member

theorem AddsCoherent.trans {before middle after : GlobalModels Declaration}
    (first : AddsCoherent before middle) (second : AddsCoherent middle after) :
    AddsCoherent before after := by
  intro entry member
  rcases second entry member with member | coherent
  · exact first entry member
  · exact .inr coherent

/-- The names are right in what a typing call declares and in what it comes to. -/
structure Named (scope : Scope) (before : GlobalModels Declaration) (verdict : Verdict)
    (after : GlobalModels Declaration) : Prop where
  added : AddsCoherent before after
  typed : ∀ typed, verdict = .ok (some typed) → TypedIn scope after typed

section

variable {graph : Graph} {settings : Settings} {budget : Nat} {id : NodeId} {site : Site}
  {state next : State} {events : List Event} {verdict : Verdict} {scope : Scope}
  {before after : GlobalModels Declaration}

theorem Named.silent (added : AddsCoherent before after)
    (nothing : ∀ typed, verdict ≠ .ok (some typed)) : Named scope before verdict after :=
  ⟨added, fun typed outcome => absurd outcome (nothing typed)⟩

theorem Named.of_typed {typed : Typed} (added : AddsCoherent before after)
    (facts : TypedIn scope after typed) : Named scope before (.ok (some typed)) after := by
  refine ⟨added, ?_⟩
  intro other same
  cases same
  exact facts

theorem Named.map {f : Typed → Typed} (facts : Named scope before verdict after)
    (bases : ∀ typed, (f typed).type.base = typed.type.base)
    (models : ∀ typed, (f typed).model = typed.model) :
    Named scope before (verdict.map (Option.map f)) after := by
  rcases verdict with failure | ⟨_ | inner⟩
  · exact .silent facts.added nofun
  · exact .silent facts.added nofun
  · have known := facts.typed inner rfl
    refine .of_typed facts.added ⟨?_, ?_⟩
    · intro owner owned
      rw [bases]
      exact known.mention owner ((TypeExpr.owner?_of_base (bases inner)).symm.trans owned)
    · intro model holds
      exact known.model model ((models inner).symm.trans holds)

theorem Declares.named {name : String} {description : Option String} {depth : Nat}
    {definition : Option Declaration}
    (below : ∀ {id site state events verdict next},
      Derives graph settings budget id site state events verdict next →
      Consistent state.globals → Named state.scope state.globals verdict next.globals)
    (declares : Declares graph settings (Derives graph settings budget) id name description scope
      depth state events definition next)
    (consistent : Consistent state.globals) :
    AddsCoherent state.globals next.globals ∧
    ∀ declaration, definition = some declaration →
      declaration.heading.name = name ∧ declaration.Coherent := by
  obtain ⟨body, ⟨_, added, facts⟩, declared⟩ := declares.body_invariant
    (I := fun body _ after => Evolves graph state.globals after.globals ∧
      AddsCoherent state.globals after.globals ∧ BodyIn scope after.globals body)
    ⟨.refl graph _, .of_models rfl, .empty _ _⟩ (by
      intro _ _ _ _ _ _ _ _ _ location failure derived grows facts
      obtain ⟨evolves, added, facts⟩ := facts
      simp only [State.note_globals, State.within_globals]
      have step := derived.evolves
      have known := below derived (evolves.consistent consistent)
      have old := facts.mono step.names
      refine ⟨evolves.trans step, added.trans known.added, ?_⟩
      cases grows with
      | same => exact old
      | more outcome based absorbed => exact old.add (known.typed _ outcome) based absorbed)
  refine ⟨added, ?_⟩
  intro declaration same
  obtain ⟨rfl, titled⟩ := declared declaration same
  exact ⟨titled, facts.all⟩

theorem Derives.named (derived : Derives graph settings budget id site state events verdict next) :
    Consistent state.globals → Named state.scope state.globals verdict next.globals := by
  refine Derives.induction (P := fun _ _ state _ verdict next =>
    Consistent state.globals → Named state.scope state.globals verdict next.globals)
    ?_ (fun named => named) ?_ derived
  · intro _ _ _ _
    exact .silent (.of_models rfl) nofun
  intro _ id site state _ _ _ below step consistent
  have naming := Evolves.resolveName graph state.globals id (proposedName graph id site)
  have named : AddsCoherent state.globals (state.named id (proposedName graph id site)).globals :=
    .of_models (state.named_models id (proposedName graph id site))
  have reserved : AddsCoherent state.globals
      (state.reserved id (proposedName graph id site)).globals :=
    .of_models (state.reserved_models id (proposedName graph id site))
  cases step with
  | primitive _ => exact .of_typed (.of_models rfl) ⟨nofun, nofun⟩
  | empty _ | unsupported _ | endless _ _ => exact .silent (.of_models rfl) nofun
  | optional _ _ inner =>
      exact (below inner consistent).map (Typed.mark_base _) (Typed.mark_model _)
  | collection _ inner =>
      exact (below inner consistent).map (Typed.collect_base _) (Typed.collect_model _)
  | transform _ inner => exact below inner consistent
  | promoted _ known =>
      exact .of_typed named (.of_mention (.inr (naming.names _ _ (consistent.named _ _ known))))
  | visible _ _ known => exact .of_typed named (.of_mention (.inl known))
  | accepted fresh _ same declares registered =>
      subst same
      have own := consistent.reserveOwn fresh.unpromoted (proposedName graph id site)
      obtain ⟨added, declared⟩ := declares.named below own
      have accepts := GlobalModels.accepts_of_register registered
      have evolves := declares.evolves Derives.evolves
      refine .of_typed ((reserved.trans added).trans ?_)
        (.of_mention (.inr ((accepts.names id).trans evolves.reserved_nameOf)))
      intro entry member
      rcases accepts.added entry member with member | rfl
      · exact .inl member
      · exact .inr (declared _ rfl).2
  | collided fresh _ _ declares registered =>
      obtain ⟨_, rfl⟩ := GlobalModels.register_error registered
      have own := consistent.reserveOwn fresh.unpromoted (proposedName graph id site)
      exact .silent (reserved.trans (declares.named below own).1) nofun
  | void fresh _ _ declares =>
      have own := consistent.reserveOwn fresh.unpromoted (proposedName graph id site)
      exact .silent (reserved.trans (declares.named below own).1) nofun
  | nested fresh _ same declares =>
      subst same
      -- The members see the node in a scope of their own; around them it is still hidden.
      obtain ⟨added, declared⟩ := declares.named below (naming.consistent consistent)
      obtain ⟨titled, coherent⟩ := declared _ rfl
      have evolves := declares.evolves Derives.evolves
      have known := evolves.names _ _ (state.named_nameOf id (proposedName graph id site))
      refine .of_typed (named.trans added) ⟨?_, ?_⟩
      · intro owner owned
        cases owned
        exact .inr known
      · intro model holds
        cases holds
        exact ⟨fresh.hidden, known, titled, coherent⟩
  | hollow _ _ _ declares =>
      exact .silent (named.trans (declares.named below (naming.consistent consistent)).1) nofun

end

/-- Global models in which every name is that of its node, and every declaration is coherent. -/
structure Sound (globals : GlobalModels Declaration) : Prop where
  consistent : Consistent globals
  held : ∀ entry ∈ globals.models, entry.2.definition.Coherent

theorem Sound.empty : Sound {} where
  consistent := .empty
  held _ member := by cases member

/-- What a step does to the global models: names are kept, and they stay sound. -/
structure Advances (before after : GlobalModels Declaration) : Prop where
  names : NamesKept before after
  sound : Sound before → Sound after

/-- The names in a scope are those of the nodes. -/
def Faithful (scope : Scope) (globals : GlobalModels Declaration) : Prop :=
  ∀ id name, scope.lookup id = some name → globals.nameOf id = some name

section

variable {before middle after : GlobalModels Declaration} {scope : Scope}

theorem Advances.refl (globals : GlobalModels Declaration) : Advances globals globals :=
  ⟨fun _ _ named => named, fun sound => sound⟩

theorem Advances.trans (first : Advances before middle) (second : Advances middle after) :
    Advances before after :=
  ⟨fun id name named => second.names id name (first.names id name named),
    fun sound => second.sound (first.sound sound)⟩

theorem Faithful.empty (globals : GlobalModels Declaration) : Faithful {} globals := by
  intro id name visible
  cases visible

theorem Faithful.mono (faithful : Faithful scope before)
    (names : NamesKept before after) :
    Faithful scope after :=
  fun id name visible => names id name (faithful id name visible)

/-- Typing adds to a scope only a node under its own name. -/
theorem Faithful.effect {verdict : Verdict} {grown : Scope} (faithful : Faithful scope after)
    (typed : ∀ typed, verdict = .ok (some typed) → TypedIn scope after typed)
    (effect : ScopeEffect scope verdict grown) : Faithful grown after := by
  rcases verdict with failure | ⟨_ | result⟩
  · rw [show grown = scope from effect]
    exact faithful
  · rw [show grown = scope from effect]
    exact faithful
  · cases holds : result.model with
    | none =>
        simp only [ScopeEffect, holds] at effect
        rw [effect]
        exact faithful
    | some model =>
        simp only [ScopeEffect, holds] at effect
        obtain ⟨_, rfl⟩ := effect
        intro id name visible
        rw [Scope.lookup_insert] at visible
        by_cases same : model.owner = id
        · rw [if_pos same] at visible
          cases visible
          rw [← same]
          exact ((typed result rfl).model model holds).named
        · rw [if_neg same] at visible
          exact faithful id name visible

/-- Where the scope is faithful, its names need not be told from those of the nodes. -/
theorem TypedIn.outside {typed : Typed} (facts : TypedIn scope after typed)
    (faithful : Faithful scope after) : TypedIn {} after typed where
  mention owner owned := by
    rcases facts.mention owner owned with visible | named
    · exact .inr (faithful owner _ visible)
    · exact .inr named
  model model holds := by
    have nestable := facts.model model holds
    exact ⟨Scope.lookup_empty _, nestable.named, nestable.titled, nestable.coherent⟩

end

/-- Whatever the scope, typing keeps the global models sound. -/
theorem Derives.sound {graph : Graph} {settings : Settings} {budget : Nat} {id : NodeId}
    {site : Site} {state next : State} {events : List Event} {verdict : Verdict}
    (derived : Derives graph settings budget id site state events verdict next)
    (sound : Sound state.globals) : Sound next.globals where
  consistent := derived.evolves.consistent sound.consistent
  held entry member := by
    rcases (derived.named sound.consistent).added entry member with member | coherent
    · exact sound.held entry member
    · exact coherent

theorem Run.sound {graph : Graph} {settings : Settings} {state last : State} {calls : List Call}
    {log : List Event} (run : Run graph settings state calls log last) :
    Sound state.globals → Sound last.globals := by
  induction run with
  | nil => exact fun sound => sound
  | cons derived _ ih => exact fun sound => ih (derived.sound sound)

end RouterClient.Typing
