import RouterClient.Proofs.Typing.Following

/-! # The budget of typing

The number of steps that stand one inside the other is checked before the budget can run out.  So
the budget never shows: typing is the recursion through the nodes that only the check cuts short.
-/

namespace RouterClient.Typing

open Model (Scope)
open Schema (NodeId Graph Arrangement)

/-- Two typers that do the same where `depth` steps stand one inside the other. -/
def AgreeAt (depth : Nat) (typer other : Typer) : Prop :=
  ∀ id site state, state.callDepth = depth → typer id site state = other id site state

/-- A step that leaves as many steps around it as there were. -/
def Level : Judgement :=
  fun _ _ state _ _ next => next.callDepth = state.callDepth

theorem typeWithin_level (graph : Graph) (settings : Settings) (budget : Nat) :
    Follows Level (typeWithin graph settings budget) := by
  intro id site state
  obtain ⟨events, verdict, next, run, derived⟩ :=
    typeWithin_follows graph settings budget id site state
  exact ⟨events, verdict, next, run, derived.callDepth_eq⟩

theorem attempt_congr {α : Type} {step other : TypingM α} {state : State}
    (same : step state = other state) : attempt step state = attempt other state := by
  unfold attempt
  rw [same]

section

variable {graph : Graph} {settings : Settings} {typer other : Typer} {state : State}

theorem typeMember_congr {δ : Type} (agree : AgreeAt state.callDepth typer other) (scope : Scope)
    (draft : δ) (member : Member δ) :
    typeMember typer scope draft member state = typeMember other scope draft member state := by
  have copied : onCopy scope (typer member.id member.site) state =
      onCopy scope (other member.id member.site) state := by
    unfold onCopy
    rw [agree member.id member.site { state with scope } rfl]
  simp only [typeMember, bind, EStateM.bind, attempt_congr copied]

theorem typeMembers_congr {δ : Type} (agree : AgreeAt state.callDepth typer other)
    (level : Follows Level typer) (scope : Scope) (members : List (Member δ)) (draft : δ) :
    typeMembers typer scope members draft state = typeMembers other scope members draft state := by
  induction members generalizing draft state with
  | nil => rfl
  | cons member more ih =>
      obtain ⟨_, verdict, next, kept, run⟩ := typeMember_follows level scope member draft state
      have run' := (typeMember_congr agree scope draft member).symm.trans run
      have later : ((next.within state.scope).note member.location
          (member.settle draft verdict).2).callDepth = state.callDepth := by
        rw [State.note_callDepth]
        exact kept
      simp only [typeMembers, List.foldlM_cons, bind, EStateM.bind, run, run']
      rw [← later] at agree
      exact ih agree (member.settle draft verdict).1

theorem declare_congr (graph : Graph) (settings : Settings)
    (agree : AgreeAt state.callDepth typer other) (level : Follows Level typer) (id : NodeId)
    (name : String) (description : Option String) (scope : Scope) (depth : Nat) :
    declare graph settings typer id name description scope depth state =
      declare graph settings other id name description scope depth state := by
  cases kind : graph.kind id with
  | object fields =>
      simp only [declare, kind, declareRecord, Functor.map, EStateM.map, bind, EStateM.bind,
        typeMembers_congr agree level]
  | union options =>
      simp only [declare, kind, declareUnion, bind, EStateM.bind, typeMembers_congr agree level]
  | _ => simp only [declare, kind]

theorem declareGlobal_congr (agree : AgreeAt state.callDepth typer other)
    (level : Follows Level typer) (id : NodeId) (name : String) (description : Option String)
    (depth : Nat) :
    declareGlobal graph settings typer id name description depth state =
      declareGlobal graph settings other id name description depth state := by
  have inner : AgreeAt (state.withGlobals (state.globals.reserve id name)).callDepth typer other :=
    agree
  have same := attempt_congr (declare_congr graph settings inner level id name description
    (Scope.insert {} id name) depth)
  simp only [declareGlobal, bind, EStateM.bind, modifyGlobals_run, same]

theorem declareLocal_congr (agree : AgreeAt state.callDepth typer other)
    (level : Follows Level typer) (id : NodeId) (name : String) (description : Option String)
    (depth : Nat) :
    declareLocal graph settings typer id name description depth state =
      declareLocal graph settings other id name description depth state := by
  have inner : AgreeAt (state.within (state.scope.insert id name)).callDepth typer other := agree
  have same := attempt_congr (declare_congr graph settings inner level id name description
    (state.scope.insert id name) depth)
  simp only [declareLocal, bind, EStateM.bind, modifyScope_run, get_run, State.within_scope, same]

theorem typeNominal_congr (agree : AgreeAt state.callDepth typer other)
    (level : Follows Level typer) {id : NodeId} (site : Site)
    (nominal : (graph.kind id).isNominal = true) :
    typeNominal graph settings typer id site state =
      typeNominal graph settings other id site state := by
  cases promoted : state.globals.globalName id with
  | some known => rw [typeNominal_promoted site promoted, typeNominal_promoted site promoted]
  | none =>
      cases visible : state.scope.lookup id with
      | some known =>
          rw [typeNominal_visible site promoted visible, typeNominal_visible site promoted visible]
      | none =>
          have fresh : Undeclared graph id state := ⟨nominal, promoted, visible⟩
          have named : (state.named id (proposedName graph id site)).callDepth =
            state.callDepth := rfl
          rw [← named] at agree
          rw [typeNominal_undeclared site fresh, typeNominal_undeclared site fresh]
          split
          · exact declareGlobal_congr agree level id _ _ _
          · exact declareLocal_congr agree level id _ _ _

/-- What typing a node comes to depends on how the nodes that it refers to are typed one step
further in, and on nothing else of the typer. -/
theorem typeNode_congr (graph : Graph) (settings : Settings)
    (agree : AgreeAt state.callDepth typer other) (level : Follows Level typer) (id : NodeId)
    (site : Site) :
    typeNode graph settings typer id site state = typeNode graph settings other id site state := by
  cases kind : graph.kind id with
  | primitive | empty | unsupported => simp only [typeNode, kind]
  | optional | nullable =>
      simp only [typeNode, kind, typeOptional]
      cases unwrap? graph graph.size id site.declared with
      | none => rfl
      | some base => simp only [bind, EStateM.bind, agree _ _ state rfl]
  | collection arrangement element =>
      simp only [typeNode, kind, typeCollection, bind, EStateM.bind, agree _ _ state rfl]
  | transform inner =>
      simp only [typeNode, kind]
      exact agree inner _ state rfl
  | object | enumeration | literal | union =>
      simp only [typeNode, kind]
      exact typeNominal_congr agree level site (by simp [kind, Schema.Kind.isNominal])

end

section

variable {graph : Graph} {settings : Settings}

theorem deeper_congr {typer other : Typer} {state : State}
    (agree : AgreeAt (state.callDepth + 1) typer other) (level : Follows Level typer)
    (id : NodeId) (site : Site) :
    deeper (typeNode graph settings typer id site) state =
      deeper (typeNode graph settings other id site) state := by
  have inner : AgreeAt state.enter.callDepth typer other := agree
  have same := typeNode_congr graph settings inner level id site
  unfold State.enter at same
  unfold deeper
  rw [same]

/-- One more step in the budget changes nothing once the budget reaches to the limit. -/
theorem typeWithin_succ {budget depth : Nat} (enough : maxDepth ≤ budget + depth) :
    AgreeAt depth (typeWithin graph settings budget) (typeWithin graph settings (budget + 1)) := by
  induction budget generalizing depth with
  | zero =>
      intro id site state stands
      rw [typeWithin_limit 0 id site (by omega)]
      rfl
  | succ budget ih =>
      intro id site state stands
      by_cases deep : maxDepth ≤ state.callDepth
      · rw [typeWithin_limit budget id site deep, typeWithin_limit (budget + 1) id site deep]
      · have room := Nat.lt_of_not_le deep
        -- One step further in, one step less is left in the budget and to the limit.
        rw [typeWithin_inside budget id site room, typeWithin_inside (budget + 1) id site room]
        exact deeper_congr (ih (by omega)) (typeWithin_level graph settings budget) id site

/-- The type of a node is a failure where too many steps stand one inside the other, and otherwise
comes, one step further in, from the types of the nodes that it refers to. -/
theorem typeHere_eq (graph : Graph) (settings : Settings) (id : NodeId) (site : Site)
    (state : State) :
    typeHere graph settings id site state =
      if maxDepth ≤ state.callDepth then .error (.recursionLimit maxDepth) state
      else deeper (typeNode graph settings (typeHere graph settings) id site) state := by
  obtain ⟨below, same⟩ : ∃ below, maxDepth = below + 1 := ⟨511, rfl⟩
  unfold typeHere
  split
  · next deep =>
    rw [same, typeWithin_limit below id site deep, ← same]
  · next shallow =>
    have agree : AgreeAt (state.callDepth + 1) (typeWithin graph settings below)
        (typeWithin graph settings (below + 1)) := typeWithin_succ (by omega)
    rw [same, typeWithin_inside below id site (Nat.lt_of_not_le shallow)]
    exact deeper_congr agree (typeWithin_level graph settings below) id site

end

end RouterClient.Typing
