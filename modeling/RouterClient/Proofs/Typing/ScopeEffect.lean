import RouterClient.Proofs.Typing.Following

/-! # The scope after typing

A node leaves the scope as it was, unless its model is to be nested where the type is wanted: then
the scope has the model besides. A node that comes down to a nominal node is mentioned by a name
under which the nominal node is found after typing.
-/

namespace RouterClient.Code.TypeExpr

/-- The text of a type has in it the text of what the type comes down to. -/
theorem text_base (type : TypeExpr) :
    ∃ before after, type.text = before ++ type.base.text ++ after := by
  induction type with
  | primitive p => exact ⟨"", "", by simp [base]⟩
  | model owner name binding => exact ⟨"", "", by simp [base]⟩
  | collection arrangement element ih =>
      obtain ⟨before, after, same⟩ := ih
      cases arrangement with
      | array => exact ⟨"[" ++ before, after ++ "]", by
          simp only [text, collectionText, base, same, String.append_assoc]⟩
      | set => exact ⟨"Set<" ++ before, after ++ ">", by
          simp only [text, collectionText, base, same, String.append_assoc]⟩
      | map => exact ⟨"[String: " ++ before, after ++ "]", by
          simp only [text, collectionText, base, same, String.append_assoc]⟩
  | optional inner ih =>
      obtain ⟨before, after, same⟩ := ih
      exact ⟨before, after ++ "?", by simp only [text, base, same, String.append_assoc]⟩

end RouterClient.Code.TypeExpr

namespace RouterClient.Typing

open Model (Scope)
open Schema (NodeId Graph Kind Arrangement)
open Code (Binding TypeExpr)

@[simp] theorem Typed.mark_model (marked : Bool) (typed : Typed) :
    (typed.mark marked).model = typed.model := by
  unfold Typed.mark
  split <;> rfl

@[simp] theorem Typed.mark_base (marked : Bool) (typed : Typed) :
    (typed.mark marked).type.base = typed.type.base := by
  unfold Typed.mark
  split <;> rfl

@[simp] theorem Typed.collect_model (arrangement : Arrangement) (typed : Typed) :
    (typed.collect arrangement).model = typed.model := rfl

@[simp] theorem Typed.collect_base (arrangement : Arrangement) (typed : Typed) :
    (typed.collect arrangement).type.base = typed.type.base := rfl

/-- The scope after a verdict: the scope before it, and the model that is still to be nested. -/
def ScopeEffect (before : Scope) : Verdict → Scope → Prop
  | .ok (some typed), after =>
    match typed.model with
    | some model =>
      before.lookup model.owner = none ∧ after = before.insert model.owner model.name
    | none => after = before
  | .ok none, after | .error _, after => after = before

theorem ScopeEffect.map {before after : Scope} {verdict : Verdict} {f : Typed → Typed}
    (keeps : ∀ typed, (f typed).model = typed.model)
    (effect : ScopeEffect before verdict after) :
    ScopeEffect before (verdict.map (Option.map f)) after := by
  rcases verdict with failure | ⟨_ | typed⟩
  · exact effect
  · exact effect
  · simp only [Except.map, Option.map_some, ScopeEffect, keeps]
    exact effect

/-- What is visible stays visible under its name. -/
theorem ScopeEffect.lookup {before after : Scope} {verdict : Verdict} {id : NodeId} {name : String}
    (effect : ScopeEffect before verdict after) (visible : before.lookup id = some name) :
    after.lookup id = some name := by
  rcases verdict with failure | ⟨_ | typed⟩
  · exact effect.symm ▸ visible
  · exact effect.symm ▸ visible
  · cases holds : typed.model with
    | none =>
        simp only [ScopeEffect, holds] at effect
        exact effect.symm ▸ visible
    | some model =>
        simp only [ScopeEffect, holds] at effect
        obtain ⟨hidden, rfl⟩ := effect
        have different : model.owner ≠ id := by
          rintro rfl
          exact Option.some_ne_none name (visible.symm.trans hidden)
        rw [Scope.lookup_insert, if_neg different]
        exact visible

/-- Members are typed on copies of a scope, so they leave the scope around them alone. -/
theorem Declares.scope_eq {graph : Graph} {settings : Settings} {J : Judgement} {id : NodeId}
    {name : String} {description : Option String} {scope : Scope} {depth : Nat}
    {state next : State} {events : List Event} {definition : Option Code.Declaration}
    (declares : Declares graph settings J id name description scope depth state events definition
      next) :
    next.scope = state.scope := by
  apply declares.chain (R := fun before _ after => after.scope = before.scope)
  · intro state
    rfl
  · intro a b c _ _ first second
    exact second.trans first
  · intro _ _ state _ _ next location failure _
    rw [State.note_scope, State.within_scope]

theorem Derives.scopeEffect {graph : Graph} {settings : Settings} {budget : Nat} {id : NodeId}
    {site : Site} {state next : State} {events : List Event} {verdict : Verdict}
    (derived : Derives graph settings budget id site state events verdict next) :
    ScopeEffect state.scope verdict next.scope := by
  refine Derives.induction (P := fun _ _ state _ verdict next =>
    ScopeEffect state.scope verdict next.scope) rfl (fun effect => effect) ?_ derived
  intro _ id _ state _ verdict next below step
  cases step with
  | primitive _ | empty _ | unsupported _ | endless _ _ | promoted _ _ | visible _ _ _ => rfl
  | optional _ _ inner => exact (below inner).map (Typed.mark_model _)
  | collection _ inner => exact (below inner).map (Typed.collect_model _)
  | transform _ inner => exact below inner
  | accepted _ _ _ declares _ | collided _ _ _ declares _ | void _ _ _ declares =>
      exact declares.scope_eq
  | nested fresh _ same declares =>
      subst same
      exact ⟨fresh.hidden, declares.scope_eq⟩
  | hollow fresh _ same declares =>
      subst same
      have after := congrArg (Scope.remove · id) declares.scope_eq
      exact after.trans (Scope.remove_insert _ _ _ fresh.hidden)

/-- A node is the nominal node `b` under wrappers and collections. -/
inductive ComesDownTo (graph : Graph) : NodeId → NodeId → Prop where
  | nominal {b} : (graph.kind b).isNominal = true → ComesDownTo graph b b
  | wrapper {id inner b} :
      wrapped? (graph.kind id) = some inner → ComesDownTo graph inner b → ComesDownTo graph id b
  | element {id arrangement element b} :
      graph.kind id = .collection arrangement element → ComesDownTo graph element b →
      ComesDownTo graph id b

namespace ComesDownTo

variable {graph : Graph} {id inner b : NodeId}

theorem of_wrapper (down : ComesDownTo graph id b)
    (wraps : wrapped? (graph.kind id) = some inner) : ComesDownTo graph inner b := by
  cases down with
  | nominal nominal => cases kind : graph.kind id <;> simp_all [wrapped?, Kind.isNominal]
  | wrapper wraps' down =>
      obtain rfl := Option.some.inj (wraps.symm.trans wraps')
      exact down
  | element kind _ => simp [kind, wrapped?] at wraps

theorem of_collection {arrangement : Arrangement} (down : ComesDownTo graph id b)
    (collects : graph.kind id = .collection arrangement inner) : ComesDownTo graph inner b := by
  cases down with
  | nominal nominal => simp [collects, Kind.isNominal] at nominal
  | wrapper wraps _ => simp [collects, wrapped?] at wraps
  | element kind down =>
      obtain ⟨rfl, rfl⟩ := Kind.collection.inj (collects.symm.trans kind)
      exact down

theorem eq_of_nominal (down : ComesDownTo graph id b)
    (nominal : (graph.kind id).isNominal = true) : b = id := by
  cases down with
  | nominal _ => rfl
  | wrapper wraps _ => cases kind : graph.kind id <;> simp_all [wrapped?, Kind.isNominal]
  | element kind _ => simp [kind, Kind.isNominal] at nominal

/-- A chain of wrappers comes down to what is left under it. -/
theorem of_unwrap {steps : Nat} {declared declared' : Option NodeId} {base : NodeId}
    (down : ComesDownTo graph id b)
    (chain : unwrap? graph steps id declared = some (base, declared')) :
    ComesDownTo graph base b := by
  induction steps generalizing id declared with
  | zero =>
      cases wraps : wrapped? (graph.kind id) with
      | some inner => simp [unwrap?, wraps] at chain
      | none =>
          simp only [unwrap?, wraps, Option.some.injEq, Prod.mk.injEq] at chain
          exact chain.1 ▸ down
  | succ steps ih =>
      cases wraps : wrapped? (graph.kind id) with
      | some inner =>
          simp only [unwrap?, wraps] at chain
          exact ih (down.of_wrapper wraps) chain
      | none =>
          simp only [unwrap?, wraps, Option.some.injEq, Prod.mk.injEq] at chain
          exact chain.1 ▸ down

end ComesDownTo

/-- The name under which a node is found. -/
def State.find (state : State) : Binding → NodeId → Option String
  | .global, id => state.globals.globalName id
  | .scope, id => state.scope.lookup id

/-- A type mentions a node by a name under which the node is found. -/
def Mentions (b : NodeId) (typed : Typed) (state : State) : Prop :=
  ∃ name binding, typed.type.base = .model b name binding ∧ state.find binding b = some name

/-- The type of a node that comes down to `b` mentions `b`. -/
def Resolves (graph : Graph) (id : NodeId) (verdict : Verdict) (next : State) : Prop :=
  ∀ b typed, ComesDownTo graph id b → verdict = .ok (some typed) → Mentions b typed next

theorem Resolves.map {graph : Graph} {id : NodeId} {verdict : Verdict} {next : State}
    {f : Typed → Typed} (keeps : ∀ typed, (f typed).type.base = typed.type.base)
    (resolves : Resolves graph id verdict next) :
    Resolves graph id (verdict.map (Option.map f)) next := by
  intro b typed down same
  rcases verdict with failure | ⟨_ | inner⟩
  · cases same
  · cases same
  · obtain rfl := Option.some.inj (Except.ok.inj same)
    obtain ⟨name, binding, based, found⟩ := resolves b inner down rfl
    exact ⟨name, binding, (keeps inner).trans based, found⟩

/-- A nominal node is mentioned by itself. -/
theorem Resolves.of_nominal {graph : Graph} {id : NodeId} {typed : Typed} {next : State}
    {name : String} {binding : Binding} (nominal : (graph.kind id).isNominal = true)
    (based : typed.type = .model id name binding) (found : next.find binding id = some name) :
    Resolves graph id (.ok (some typed)) next := by
  intro b typed' down same
  obtain rfl := down.eq_of_nominal nominal
  obtain rfl := Option.some.inj (Except.ok.inj same)
  exact ⟨name, binding, congrArg TypeExpr.base based, found⟩

/-- Nothing is to be shown where there is no type. -/
theorem Resolves.of_error {graph : Graph} {id : NodeId} {failure : Failure} {next : State} :
    Resolves graph id (.error failure) next := by
  intro b typed _ same
  cases same

theorem Resolves.of_none {graph : Graph} {id : NodeId} {next : State} :
    Resolves graph id (.ok none) next := by
  intro b typed _ same
  cases same

theorem Derives.resolves {graph : Graph} {settings : Settings} {budget : Nat} {id : NodeId}
    {site : Site} {state next : State} {events : List Event} {verdict : Verdict}
    (derived : Derives graph settings budget id site state events verdict next) :
    Resolves graph id verdict next := by
  refine Derives.induction (P := fun id _ _ _ verdict next => Resolves graph id verdict next)
    .of_error (fun resolves => resolves) ?_ derived
  intro _ id _ state _ verdict next below step
  cases step with
  | primitive kind =>
      intro b typed down
      cases down with
      | nominal nominal => simp [kind, Kind.isNominal] at nominal
      | wrapper wraps _ => simp [kind, wrapped?] at wraps
      | element collects _ => simp [kind] at collects
  | empty _ | void _ _ _ _ | hollow _ _ _ _ => exact .of_none
  | unsupported _ | endless _ _ | collided _ _ _ _ _ => exact .of_error
  | optional _ chain inner =>
      intro b typed down
      exact (below inner).map (Typed.mark_base _) b typed (down.of_unwrap chain)
  | collection kind inner =>
      intro b typed down
      exact (below inner).map (Typed.collect_base _) b typed (down.of_collection kind)
  | transform kind inner =>
      intro b typed down
      exact below inner b typed (down.of_wrapper (by simp [kind, wrapped?]))
  | promoted nominal promoted =>
      exact .of_nominal nominal rfl ((State.named_globalName _ _ _ _).trans promoted)
  | visible nominal _ visible => exact .of_nominal nominal rfl visible
  | accepted fresh _ _ _ registered =>
      have accepts := Model.GlobalModels.accepts_of_register registered
      exact .of_nominal fresh.nominal rfl accepts.own
  | nested fresh _ same declares =>
      subst same
      refine .of_nominal fresh.nominal rfl ?_
      exact (congrArg (Scope.lookup · id) declares.scope_eq).trans
        ((Scope.lookup_insert _ _ _ _).trans (if_pos rfl))

/-- Whatever a type mentions by name is found under that name. -/
def Finds (verdict : Verdict) (next : State) : Prop :=
  ∀ typed, verdict = .ok (some typed) → ∀ owner name binding,
    typed.type.base = .model owner name binding → next.find binding owner = some name

theorem Finds.map {verdict : Verdict} {next : State} {f : Typed → Typed}
    (keeps : ∀ typed, (f typed).type.base = typed.type.base) (finds : Finds verdict next) :
    Finds (verdict.map (Option.map f)) next := by
  intro typed same owner name binding based
  rcases verdict with failure | ⟨_ | inner⟩
  · cases same
  · cases same
  · obtain rfl := Option.some.inj (Except.ok.inj same)
    exact finds inner rfl owner name binding ((keeps inner).symm.trans based)

theorem Derives.finds {graph : Graph} {settings : Settings} {budget : Nat} {id : NodeId}
    {site : Site} {state next : State} {events : List Event} {verdict : Verdict}
    (derived : Derives graph settings budget id site state events verdict next) :
    Finds verdict next := by
  refine Derives.induction (P := fun _ _ _ _ verdict next => Finds verdict next)
    nofun (fun finds => finds) ?_ derived
  intro _ id _ state _ verdict next below step
  cases step with
  | empty _ | void _ _ _ _ | hollow _ _ _ _ | unsupported _ | endless _ _
  | collided _ _ _ _ _ => exact nofun
  | primitive _ =>
      rintro _ ⟨⟩ _ _ _ ⟨⟩
  | optional _ _ inner => exact (below inner).map (Typed.mark_base _)
  | collection _ inner => exact (below inner).map (Typed.collect_base _)
  | transform _ inner => exact below inner
  | promoted _ promoted =>
      rintro _ ⟨⟩ _ _ _ ⟨⟩
      exact (State.named_globalName _ _ _ _).trans promoted
  | visible _ _ visible =>
      rintro _ ⟨⟩ _ _ _ ⟨⟩
      exact visible
  | accepted _ _ _ _ registered =>
      rintro _ ⟨⟩ _ _ _ ⟨⟩
      exact (Model.GlobalModels.accepts_of_register registered).own
  | nested _ _ same declares =>
      rintro _ ⟨⟩ _ _ _ ⟨⟩
      subst same
      exact (congrArg (Scope.lookup · id) declares.scope_eq).trans
        ((Scope.lookup_insert _ _ _ _).trans (if_pos rfl))

/-- After typing, the scope is what it was, with the model that is to be nested if there is one;
and the name of a nominal node in the text of the type is one under which the node is found. -/
theorem typeHere_scope (graph : Graph) (settings : Settings) (id : NodeId) (site : Site)
    (state : State) :
    ∃ verdict next, typeHere graph settings id site state = ending verdict next ∧
      ScopeEffect state.scope verdict next.scope ∧
      ∀ b typed, ComesDownTo graph id b → verdict = .ok (some typed) →
        ∃ name binding, typed.type.base = .model b name binding ∧
          (∃ before after, typed.type.text = before ++ name ++ after) ∧
          next.find binding b = some name := by
  obtain ⟨events, verdict, next, run, derived⟩ :=
    typeWithin_follows graph settings maxDepth id site state
  refine ⟨verdict, next, run, derived.scopeEffect, ?_⟩
  intro b typed down same
  obtain ⟨name, binding, based, found⟩ := derived.resolves b typed down same
  refine ⟨name, binding, based, ?_, found⟩
  have written := typed.type.text_base
  rw [based] at written
  exact written

end RouterClient.Typing
