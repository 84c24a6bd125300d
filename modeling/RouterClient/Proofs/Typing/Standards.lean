import RouterClient.Proofs.Typing.ScopeEffect
import RouterClient.Proofs.Typing.Drafts

/-! # Standards

A standard says what is to hold of every name, type and declaration.  Typing takes names from labels, keys
and the state, types from nodes, and declarations from members, so a standard that each of these ways
meets is met by everything that typing brings up, from a state on that meets it.  A standard may depend on
the texts that names are made from; then what a site hands down for a node without a name counts as well.
-/

namespace RouterClient.Typing

open Model (GlobalModels LocalModels Scope)
open Schema (NodeId Graph Label Primitive Arrangement)
open Code (Binding Declaration TypeExpr typeName)

/-- Where the name of a node may have to be made up, here or under a wrapper, the text for it is of some
kind. -/
def Supplied (graph : Graph) (texts : String → Prop) (id : NodeId) (fallback : String) : Prop :=
  ((graph.kind id).isNominal = true → (graph.label id).name = none) → texts fallback

/-- What is to hold of every name, every type and every declaration. -/
structure Standard where
  name : String → Prop
  type : TypeExpr → Prop
  declaration : Declaration → Prop

namespace Standard

structure OfTyped (standard : Standard) (typed : Typed) : Prop where
  type : standard.type typed.type
  named : ∀ model, typed.model = some model → standard.name model.name
  model : ∀ model, typed.model = some model → standard.declaration model.definition

/-- A verdict whose type, if there is one, meets the standard. -/
def OfVerdict (standard : Standard) (verdict : Verdict) : Prop :=
  ∀ typed, verdict = .ok (some typed) → standard.OfTyped typed

structure OfGlobals (standard : Standard) (globals : GlobalModels Declaration) : Prop where
  named : ∀ id name, globals.nameOf id = some name → standard.name name
  promoted : ∀ id name, globals.globalName id = some name → standard.name name
  held : ∀ entry ∈ globals.models, standard.declaration entry.2.definition

def OfScope (standard : Standard) (scope : Scope) : Prop :=
  ∀ id name, scope.lookup id = some name → standard.name name

structure OfState (standard : Standard) (state : State) : Prop where
  globals : standard.OfGlobals state.globals
  scope : standard.OfScope state.scope

/-- The ways in which typing comes to names, types and declarations meet the standard, where names are
made from texts of some kind. -/
structure Met (graph : Graph) (settings : Settings) (standard : Standard) (texts : String → Prop) :
    Prop where
  label : ∀ {id text}, (graph.label id).name = some text → texts text
  member : ∀ {id depth below site}, IsMember graph id depth below site → texts site.fallback
  typeName : ∀ {text}, texts text → standard.name (typeName text)
  primitive : ∀ p, standard.type (.primitive p)
  model : ∀ id {name} binding, standard.name name → standard.type (.model id name binding)
  collection : ∀ arrangement {type}, standard.type type → standard.type (.collection arrangement type)
  optional : ∀ {type}, standard.type type → type.isOptional = false → standard.type (.optional type)
  made : ∀ {J id name description scope depth state events definition next},
    (∀ {id site state events verdict next}, J id site state events verdict next →
      standard.OfVerdict verdict) →
    standard.name name →
    Declares graph settings J id name description scope depth state events (some definition) next →
    standard.declaration definition

section

variable {standard : Standard} {globals grown : GlobalModels Declaration} {scope : Scope}
  {id : NodeId} {name proposal : String} {verdict : Verdict}

/-- A node is named after itself, after a wrapper or by its site. -/
theorem Met.proposed {graph : Graph} {settings : Settings} {texts : String → Prop} {site : Site}
    (ways : standard.Met graph settings texts) (supplied : Supplied graph texts id site.fallback) :
    standard.name (proposedName graph id site) := by
  apply ways.typeName
  cases own : (graph.label id).name with
  | some text => exact ways.label own
  | none =>
      cases shared : (site.declared.map graph.label).bind Label.name with
      | some text =>
          obtain ⟨label, given, named⟩ := Option.bind_eq_some_iff.mp shared
          obtain ⟨wrapper, _, rfl⟩ := Option.map_eq_some_iff.mp given
          exact ways.label named
      | none => exact supplied fun _ => own

theorem OfScope.empty (standard : Standard) : standard.OfScope {} :=
  nofun

theorem OfScope.insert (met : standard.OfScope scope) (id : NodeId) (named : standard.name name) :
    standard.OfScope (scope.insert id name) := by
  intro other known found
  rw [Scope.lookup_insert] at found
  split at found
  · cases found
    exact named
  · exact met other known found

namespace OfGlobals

theorem empty (standard : Standard) : standard.OfGlobals {} :=
  ⟨nofun, nofun, nofun⟩

theorem nameFor (met : standard.OfGlobals globals) (id : NodeId) (proposed : standard.name proposal) :
    standard.name (globals.resolveName id proposal).1 := by
  unfold GlobalModels.resolveName
  split
  · next known => exact met.named id _ known
  · exact proposed

theorem resolveName (met : standard.OfGlobals globals) (id : NodeId)
    (proposed : standard.name proposal) : standard.OfGlobals (globals.resolveName id proposal).2 where
  named other name known := by
    rw [GlobalModels.nameOf_resolveName] at known
    split at known
    · cases known
      exact met.nameFor id proposed
    · exact met.named other name known
  promoted other name known := by
    rw [GlobalModels.globalName_resolveName] at known
    exact met.promoted other name known
  held entry listed := by
    rw [GlobalModels.models_resolveName] at listed
    exact met.held entry listed

theorem reserve (met : standard.OfGlobals globals) (id : NodeId) (named : standard.name name) :
    standard.OfGlobals (globals.reserve id name) where
  named := met.named
  promoted other known found := by
    rw [GlobalModels.globalName_reserve] at found
    split at found
    · cases found
      exact named
    · exact met.promoted other known found
  held := met.held

theorem abandon (met : standard.OfGlobals globals) (id : NodeId) :
    standard.OfGlobals (globals.abandon id) where
  named := met.named
  promoted other known found := by
    rw [GlobalModels.globalName_abandon] at found
    split at found
    · cases found
    · exact met.promoted other known found
  held := met.held

theorem accepts (met : standard.OfGlobals globals) {definition : Declaration}
    (accepts : globals.Accepts id name definition grown) (named : standard.name name)
    (declared : standard.declaration definition) : standard.OfGlobals grown where
  named other known found := met.named other known ((accepts.names other).symm.trans found)
  promoted other known found := by
    rw [accepts.promoted] at found
    split at found
    · cases found
      exact named
    · exact met.promoted other known found
  held entry listed := by
    rcases accepts.added entry listed with listed | rfl
    · exact met.held entry listed
    · exact declared

end OfGlobals

/-- The models that are nested where a type joins meet the standard if those before it do. -/
theorem OfTyped.absorb? {typed : Typed} {models grown : LocalModels Declaration}
    (met : standard.OfTyped typed) (absorbed : models.absorb? typed.model = .ok grown)
    (before : ∀ model ∈ models, standard.declaration model.definition) :
    ∀ model ∈ grown, standard.declaration model.definition := by
  intro model listed
  rcases LocalModels.mem_of_absorb? absorbed listed with listed | same
  · exact before model listed
  · exact met.model model same

theorem OfState.empty (standard : Standard) : standard.OfState {} :=
  ⟨.empty standard, .empty standard⟩

theorem OfVerdict.map {f : Typed → Typed} (met : standard.OfVerdict verdict)
    (type : ∀ typed, standard.type typed.type → standard.type (f typed).type)
    (model : ∀ typed, (f typed).model = typed.model) :
    standard.OfVerdict (verdict.map (Option.map f)) := by
  rcases verdict with failure | ⟨_ | typed⟩
  · exact nofun
  · exact nofun
  · rintro _ ⟨⟩
    have facts := met typed rfl
    refine ⟨type typed facts.type, fun nested same => ?_, fun nested same => ?_⟩
    · exact facts.named nested ((model typed).symm.trans same)
    · exact facts.model nested ((model typed).symm.trans same)

end

end Standard

/-! ## Declarations -/

section

variable {graph : Graph} {settings : Settings} {standard : Standard} {texts : String → Prop}
  {J : Judgement} {scope : Scope} {state next : State} {events : List Event}

/-- Typing from a state that meets the standard. -/
def Upholds (standard : Standard) (state : State) (verdict : Verdict) (next : State) : Prop :=
  standard.OfState state → standard.OfState next ∧ standard.OfVerdict verdict

/-- The verdicts on members that are typed one after the other meet the standard. -/
theorem Members.upheld {δ : Type} {members : List (Member δ)} {draft final : δ}
    (below : ∀ {id site state events verdict next}, J id site state events verdict next →
      Upholds standard state verdict next)
    (visible : standard.OfScope scope) (runs : Members J scope members draft state events final next)
    (met : standard.OfState state) :
    standard.OfState next ∧
      Members (fun id site state events verdict next =>
        J id site state events verdict next ∧ standard.OfVerdict verdict)
        scope members draft state events final next := by
  induction runs with
  | nil => exact ⟨met, .nil⟩
  | cons derived _ ih =>
      obtain ⟨after, types⟩ := below derived ⟨met.globals, visible⟩
      obtain ⟨last, rest⟩ := ih ⟨by rw [State.note_globals]; exact after.globals,
        by rw [State.note_scope]; exact met.scope⟩
      exact ⟨last, .cons ⟨derived, types⟩ rest⟩

theorem Declares.upheld {id : NodeId} {name : String} {description : Option String} {depth : Nat}
    {definition : Option Declaration} (ways : standard.Met graph settings texts)
    (below : ∀ {id site state events verdict next}, J id site state events verdict next →
      Upholds standard state verdict next)
    (visible : standard.OfScope scope) (named : standard.name name)
    (declares : Declares graph settings J id name description scope depth state events definition
      next)
    (met : standard.OfState state) :
    standard.OfState next ∧
      ∀ declaration, definition = some declaration → standard.declaration declaration := by
  have whole : standard.OfState next ∧
      Declares graph settings (fun id site state events verdict next =>
        J id site state events verdict next ∧ standard.OfVerdict verdict)
        id name description scope depth state events definition next := by
    cases declares with
    | record kind runs =>
        obtain ⟨after, runs⟩ := runs.upheld below visible met
        exact ⟨after, .record kind runs⟩
    | enumeration kind => exact ⟨met, .enumeration kind⟩
    | literal kind => exact ⟨met, .literal kind⟩
    | union kind runs =>
        obtain ⟨after, runs⟩ := runs.upheld below visible met
        exact ⟨after, .union kind runs⟩
  refine ⟨whole.1, ?_⟩
  rintro declaration rfl
  exact ways.made And.right named whole.2

/-- Typing upholds a standard whose ways it meets, where it is supplied with texts for names. -/
theorem Derives.upheld_of_supplied {budget : Nat} {id : NodeId} {site : Site} {verdict : Verdict}
    (ways : standard.Met graph settings texts)
    (derived : Derives graph settings budget id site state events verdict next)
    (supplied : Supplied graph texts id site.fallback) : Upholds standard state verdict next := by
  refine Derives.induction (P := fun id site state _ verdict next =>
      Supplied graph texts id site.fallback → Upholds standard state verdict next)
    (fun _ met => ⟨met, nofun⟩)
    (fun upheld supplied met => ⟨⟨(upheld supplied ⟨met.globals, met.scope⟩).1.globals,
      (upheld supplied ⟨met.globals, met.scope⟩).1.scope⟩,
      (upheld supplied ⟨met.globals, met.scope⟩).2⟩) ?_ derived supplied
  intro budget id site state events verdict next below step supplied met
  have proposed : standard.name (proposedName graph id site) := ways.proposed supplied
  have named : standard.name (state.nameFor id (proposedName graph id site)) :=
    met.globals.nameFor id proposed
  -- A wrapper or a collection hands the text of its site down.
  have handed (wraps : (graph.kind id).isNominal = false) (inner : NodeId) :
      Supplied graph texts inner site.fallback :=
    fun _ => supplied fun nominal => absurd (wraps.symm.trans nominal) nofun
  have resolved := met.globals.resolveName id proposed
  -- A reserved node is declared where nothing else is visible.
  have alone := (Standard.OfScope.empty standard).insert id named
  have reserved : standard.OfState (state.reserved id (proposedName graph id site)) :=
    ⟨resolved.reserve id named, met.scope⟩
  have shown : standard.OfState (state.shown id (proposedName graph id site)) :=
    ⟨resolved, met.scope.insert id named⟩
  have mention {known : String} {binding : Binding} (named : standard.name known) :
      standard.OfVerdict (.ok (some { type := .model id known binding })) := by
    rintro _ ⟨⟩
    exact ⟨ways.model id binding named, nofun, nofun⟩
  have declared {name description scope state events definition next}
      (visible : standard.OfScope scope) (named : standard.name name)
      (declares : Declares graph settings (Derives graph settings budget) id name description scope
        site.depth state events definition next) :=
    declares.at_members.upheld ways (fun typed => below typed.1 fun _ => ways.member typed.2) visible
      named
  cases step with
  | primitive _ =>
      refine ⟨met, ?_⟩
      rintro _ ⟨⟩
      exact ⟨ways.primitive _, nofun, nofun⟩
  | empty _ | unsupported _ | endless _ _ => exact ⟨met, nofun⟩
  | optional kind _ inner =>
      have wraps : (graph.kind id).isNominal = false := by
        rcases kind with kind | kind <;> rw [kind] <;> rfl
      obtain ⟨after, types⟩ := below inner (handed wraps _) met
      refine ⟨after, types.map (fun typed fit => ?_) (Typed.mark_model _)⟩
      simp only [Typed.mark, Bool.or_eq_true]
      split
      · exact fit
      · next unmarked => exact ways.optional fit (Bool.eq_false_iff.mpr fun same => unmarked (.inr same))
  | collection kind inner =>
      obtain ⟨after, types⟩ := below inner (handed (by rw [kind]; rfl) _) met
      exact ⟨after, types.map (fun _ fit => ways.collection _ fit) (Typed.collect_model _)⟩
  | transform kind inner => exact below inner (handed (by rw [kind]; rfl) _) met
  | promoted _ known => exact ⟨⟨resolved, met.scope⟩, mention (met.globals.promoted _ _ known)⟩
  | visible _ _ known => exact ⟨⟨resolved, met.scope⟩, mention (met.scope _ _ known)⟩
  | accepted _ _ same declares registered =>
      subst same
      obtain ⟨after, made⟩ := declared alone named declares reserved
      exact ⟨⟨after.globals.accepts (GlobalModels.accepts_of_register registered) named
        (made _ rfl), after.scope⟩, mention named⟩
  | collided _ _ same declares registered =>
      subst same
      obtain ⟨after, _⟩ := declared alone named declares reserved
      obtain ⟨_, rfl⟩ := GlobalModels.register_error registered
      exact ⟨⟨after.globals.abandon id, after.scope⟩, nofun⟩
  | void _ _ same declares =>
      subst same
      obtain ⟨after, _⟩ := declared alone named declares reserved
      exact ⟨⟨after.globals.abandon id, after.scope⟩, nofun⟩
  | nested _ _ same declares =>
      subst same
      obtain ⟨after, made⟩ := declared (met.scope.insert id named) named declares shown
      refine ⟨after, ?_⟩
      rintro _ ⟨⟩
      refine ⟨ways.model id _ named, ?_, ?_⟩
      · rintro _ ⟨⟩
        exact named
      · rintro _ ⟨⟩
        exact made _ rfl
  | hollow fresh _ same declares =>
      subst same
      obtain ⟨after, _⟩ := declared (met.scope.insert id named) named declares shown
      refine ⟨⟨after.globals, ?_⟩, nofun⟩
      have kept := congrArg (Scope.remove · id) declares.scope_eq
      rw [State.within_scope, kept, State.shown_scope, Scope.remove_insert _ _ _ fresh.hidden]
      exact met.scope

/-- Typing upholds a standard for which it does not matter what names are made from. -/
theorem Derives.upheld {budget : Nat} {id : NodeId} {site : Site} {verdict : Verdict}
    (ways : standard.Met graph settings fun _ => True)
    (derived : Derives graph settings budget id site state events verdict next) :
    Upholds standard state verdict next :=
  derived.upheld_of_supplied ways fun _ => trivial

end

end RouterClient.Typing
