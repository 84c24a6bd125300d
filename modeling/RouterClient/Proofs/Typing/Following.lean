import RouterClient.Proofs.Typing.Rules

/-! # Typing follows its rules

Every run of the typing functions is a derivation, so whatever holds of every derivation holds of
every run.
-/

namespace RouterClient.Typing

open Model (Scope)
open Schema (NodeId Graph Kind)
open Code (Declaration)

/-- A step that comes to a verdict and a state. -/
def ending {α : Type} (verdict : Except Failure α) (next : State) :
    EStateM.Result Failure State α :=
  match verdict with
  | .ok result => .ok result next
  | .error failure => .error failure next

theorem ending_inj {α : Type} {verdict other : Except Failure α} {state next : State}
    (same : ending verdict state = ending other next) : verdict = other ∧ state = next := by
  cases verdict <;> cases other <;> cases same <;> exact ⟨rfl, rfl⟩

/-- A typer all of whose runs can be derived. -/
def Follows (J : Judgement) (typer : Typer) : Prop :=
  ∀ id site state, ∃ events verdict next,
    typer id site state = ending verdict next ∧ J id site state events verdict next

theorem attempt_ending {α : Type} {step : TypingM α} {state next : State}
    {verdict : Except Failure α} (h : step state = ending verdict next) :
    attempt step state = .ok verdict next := by
  cases verdict <;> simp only [attempt, h, ending]

theorem onCopy_ending {α : Type} {step : TypingM α} {scope : Scope} {state next : State}
    {verdict : Except Failure α} (h : step (state.within scope) = ending verdict next) :
    onCopy scope step state = ending verdict (next.within state.scope) := by
  simp only [State.within] at h
  cases verdict <;> simp only [onCopy, h, ending, State.within]

theorem deeper_ending {α : Type} {step : TypingM α} {state next : State}
    {verdict : Except Failure α} (h : step state.enter = ending verdict next) :
    deeper step state = ending verdict next.leave := by
  simp only [State.enter] at h
  cases verdict <;> simp only [deeper, h, ending, State.leave]

theorem map_ending {α β : Type} {step : TypingM α} {f : α → β} {state next : State}
    {verdict : Except Failure α} (h : step state = ending verdict next) :
    (step >>= fun result => pure (f result)) state = ending (verdict.map f) next := by
  cases verdict <;> simp only [bind, EStateM.bind, h, ending, pure, EStateM.pure, Except.map]

theorem modifyGlobals_run (change : Model.GlobalModels Declaration → Model.GlobalModels Declaration)
    (state : State) :
    modifyGlobals change state = .ok () (state.withGlobals (change state.globals)) := rfl

theorem modifyScope_run (change : Scope → Scope) (state : State) :
    modifyScope change state = .ok () (state.within (change state.scope)) := rfl

theorem reserve_run (id : NodeId) (proposal : String) (state : State) :
    modifyGlobals (·.reserve id (state.nameFor id proposal)) (state.named id proposal) =
      .ok () (state.reserved id proposal) := rfl

theorem show_run (id : NodeId) (proposal : String) (state : State) :
    modifyScope (·.insert id (state.nameFor id proposal)) (state.named id proposal) =
      .ok () (state.shown id proposal) := rfl

theorem get_run (state : State) : (get : TypingM State) state = .ok state state := rfl

theorem resolveName_run (id : NodeId) (proposal : String) (state : State) :
    resolveName id proposal state =
      .ok (state.nameFor id proposal) (state.named id proposal) := rfl

theorem register_run {state : State} {id : NodeId} {name : String} {definition : Declaration}
    {result : Except Failure Unit} {globals : Model.GlobalModels Declaration}
    (h : state.globals.register id name definition = (result, globals)) :
    register id name definition state = ending result (state.withGlobals globals) := by
  simp only [register, bind, EStateM.bind, get_run, modifyGlobals_run, h]
  cases result <;> rfl

section

variable {graph : Graph} {settings : Settings} {J : Judgement} {typer : Typer}

theorem typeMember_run {δ : Type} {scope : Scope} {member : Member δ} {state next : State}
    {verdict : Verdict} (draft : δ)
    (run : typer member.id member.site (state.within scope) = ending verdict next) :
    typeMember typer scope draft member state =
      .ok (member.settle draft verdict).1
        ((next.within state.scope).note member.location (member.settle draft verdict).2) := by
  simp only [typeMember, bind, EStateM.bind, attempt_ending (onCopy_ending run)]
  cases (member.settle draft verdict).2 <;> rfl

theorem typeMember_follows {δ : Type} (follows : Follows J typer) (scope : Scope)
    (member : Member δ) (draft : δ) (state : State) :
    ∃ events verdict next,
      J member.id member.site (state.within scope) events verdict next ∧
      typeMember typer scope draft member state =
        .ok (member.settle draft verdict).1
          ((next.within state.scope).note member.location (member.settle draft verdict).2) := by
  obtain ⟨events, verdict, next, run, derived⟩ := follows member.id member.site (state.within scope)
  exact ⟨events, verdict, next, derived, typeMember_run draft run⟩

theorem typeMembers_follows {δ : Type} (follows : Follows J typer) (scope : Scope)
    (members : List (Member δ)) (draft : δ) (state : State) :
    ∃ events final last, typeMembers typer scope members draft state = .ok final last ∧
      Members J scope members draft state events final last := by
  induction members generalizing draft state with
  | nil => exact ⟨[], draft, state, rfl, .nil⟩
  | cons member more ih =>
      obtain ⟨events, verdict, next, derived, run⟩ :=
        typeMember_follows follows scope member draft state
      obtain ⟨events', final, last, rest, runs⟩ := ih (member.settle draft verdict).1
        ((next.within state.scope).note member.location (member.settle draft verdict).2)
      refine ⟨events ++ events', final, last, ?_, .cons derived runs⟩
      simp only [typeMembers, List.foldlM_cons, bind, EStateM.bind, run]
      exact rest

theorem declare_follows (settings : Settings) (follows : Follows J typer) {id : NodeId}
    (name : String) (description : Option String) (scope : Scope) (depth : Nat) (state : State)
    (nominal : (graph.kind id).isNominal = true) :
    ∃ events definition next,
      declare graph settings typer id name description scope depth state = .ok definition next ∧
      Declares graph settings J id name description scope depth state events definition next := by
  cases kind : graph.kind id with
  | object fields =>
      obtain ⟨events, draft, next, run, runs⟩ := typeMembers_follows follows scope
        (fields.map (fieldMember graph settings name depth)) {} state
      refine ⟨events, _, next, ?_, .record kind runs⟩
      simp only [declare, kind, declareRecord, Functor.map, EStateM.map, bind, EStateM.bind, run]
      rfl
  | enumeration values =>
      exact ⟨[], _, state, by simp only [declare, kind]; rfl, .enumeration kind⟩
  | literal value => exact ⟨[], _, state, by simp only [declare, kind]; rfl, .literal kind⟩
  | union options =>
      obtain ⟨events, draft, next, run, runs⟩ := typeMembers_follows follows scope
        (options.zipIdx.map (optionMember graph name depth)) {} state
      refine ⟨events, _, next, ?_, .union kind runs⟩
      simp only [declare, kind, declareUnion, bind, EStateM.bind, run]
      rfl
  | _ => simp [kind, Kind.isNominal] at nominal

section

variable {id : NodeId} {proposal : String} {description : Option String} {depth : Nat}
  {state next : State} {definition : Declaration}

theorem declareGlobal_void
    (run : declare graph settings typer id (state.nameFor id proposal) description
      (Scope.insert {} id (state.nameFor id proposal)) depth (state.reserved id proposal) =
        .ok none next) :
    declareGlobal graph settings typer id (state.nameFor id proposal) description depth
        (state.named id proposal) =
      ending (.ok none) (next.withGlobals (next.globals.abandon id)) := by
  have attempted := attempt_ending (show _ = ending (.ok none) next from run)
  simp only [declareGlobal, bind, EStateM.bind, reserve_run, attempted]
  rfl

theorem declareGlobal_registered {result : Except Failure Unit}
    {globals : Model.GlobalModels Declaration}
    (run : declare graph settings typer id (state.nameFor id proposal) description
      (Scope.insert {} id (state.nameFor id proposal)) depth (state.reserved id proposal) =
        .ok (some definition) next)
    (registered : next.globals.register id (state.nameFor id proposal) definition =
      (result, globals)) :
    declareGlobal graph settings typer id (state.nameFor id proposal) description depth
        (state.named id proposal) =
      ending (result.map fun _ => some { type := .model id (state.nameFor id proposal) .global })
        (next.withGlobals globals) := by
  have attempted := attempt_ending (show _ = ending (.ok (some definition)) next from run)
  simp only [declareGlobal, bind, EStateM.bind, reserve_run, attempted, register_run registered]
  cases result <;> rfl

theorem declareLocal_hollow
    (run : declare graph settings typer id (state.nameFor id proposal) description
      (state.scope.insert id (state.nameFor id proposal)) depth (state.shown id proposal) =
        .ok none next) :
    declareLocal graph settings typer id (state.nameFor id proposal) description depth
        (state.named id proposal) =
      ending (.ok none) (next.within (next.scope.remove id)) := by
  have attempted := attempt_ending (show _ = ending (.ok none) next from run)
  simp only [declareLocal, bind, EStateM.bind, show_run, get_run, State.shown_scope, attempted]
  rfl

theorem declareLocal_nested
    (run : declare graph settings typer id (state.nameFor id proposal) description
      (state.scope.insert id (state.nameFor id proposal)) depth (state.shown id proposal) =
        .ok (some definition) next) :
    declareLocal graph settings typer id (state.nameFor id proposal) description depth
        (state.named id proposal) =
      ending (.ok (some {
        type := .model id (state.nameFor id proposal) .scope
        model := some ⟨id, state.nameFor id proposal, definition⟩ })) next := by
  have attempted := attempt_ending (show _ = ending (.ok (some definition)) next from run)
  simp only [declareLocal, bind, EStateM.bind, show_run, get_run, State.shown_scope, attempted]
  rfl

end

theorem declareGlobal_follows (follows : Follows J typer) {id : NodeId} {site : Site}
    {state : State} (fresh : Undeclared graph id state)
    (global :
      isGlobal settings (graph.label id) (site.declared.map graph.label) site.depth = true) :
    ∃ events verdict next,
      declareGlobal graph settings typer id (state.nameFor id (proposedName graph id site))
          (describedAs graph id site) site.depth (state.named id (proposedName graph id site)) =
        ending verdict next ∧
      Step graph settings J id site state events verdict next := by
  obtain ⟨events, definition, next, run, declares⟩ := declare_follows settings follows
    (state.nameFor id (proposedName graph id site)) (describedAs graph id site)
    (Scope.insert {} id (state.nameFor id (proposedName graph id site))) site.depth
    (state.reserved id (proposedName graph id site)) fresh.nominal
  cases definition with
  | none => exact ⟨_, _, _, declareGlobal_void run, .void fresh global rfl declares⟩
  | some definition =>
      cases registered : next.globals.register id
          (state.nameFor id (proposedName graph id site)) definition with
      | mk result globals =>
          have whole := declareGlobal_registered run registered
          cases result with
          | ok => exact ⟨_, _, _, whole, .accepted fresh global rfl declares registered⟩
          | error failure =>
              exact ⟨_, _, _, whole, .collided fresh global rfl declares registered⟩

theorem declareLocal_follows (follows : Follows J typer) {id : NodeId} {site : Site}
    {state : State} (fresh : Undeclared graph id state)
    (kept :
      isGlobal settings (graph.label id) (site.declared.map graph.label) site.depth = false) :
    ∃ events verdict next,
      declareLocal graph settings typer id (state.nameFor id (proposedName graph id site))
          (describedAs graph id site) site.depth (state.named id (proposedName graph id site)) =
        ending verdict next ∧
      Step graph settings J id site state events verdict next := by
  obtain ⟨events, definition, next, run, declares⟩ := declare_follows settings follows
    (state.nameFor id (proposedName graph id site)) (describedAs graph id site)
    (state.scope.insert id (state.nameFor id (proposedName graph id site))) site.depth
    (state.shown id (proposedName graph id site)) fresh.nominal
  cases definition with
  | none => exact ⟨_, _, _, declareLocal_hollow run, .hollow fresh kept rfl declares⟩
  | some definition => exact ⟨_, _, _, declareLocal_nested run, .nested fresh kept rfl declares⟩

/-- A promoted node is mentioned by its global name. -/
theorem typeNominal_promoted {id : NodeId} (site : Site) {state : State} {known : String}
    (promoted : state.globals.globalName id = some known) :
    typeNominal graph settings typer id site state =
      .ok (some { type := .model id known .global })
        (state.named id (proposedName graph id site)) := by
  simp only [typeNominal, bind, EStateM.bind, resolveName_run, get_run, State.named_globalName,
    promoted]
  rfl

/-- A visible node is mentioned by the name under which it is visible. -/
theorem typeNominal_visible {id : NodeId} (site : Site) {state : State} {known : String}
    (unpromoted : state.globals.globalName id = none)
    (visible : state.scope.lookup id = some known) :
    typeNominal graph settings typer id site state =
      .ok (some { type := .model id known .scope })
        (state.named id (proposedName graph id site)) := by
  simp only [typeNominal, bind, EStateM.bind, resolveName_run, get_run, State.named_globalName,
    State.named_scope, unpromoted, visible]
  rfl

theorem typeNominal_undeclared {id : NodeId} (site : Site) {state : State}
    (fresh : Undeclared graph id state) :
    typeNominal graph settings typer id site state =
      (if isGlobal settings (graph.label id) (site.declared.map graph.label) site.depth then
        declareGlobal graph settings typer id (state.nameFor id (proposedName graph id site))
          (describedAs graph id site) site.depth
      else
        declareLocal graph settings typer id (state.nameFor id (proposedName graph id site))
          (describedAs graph id site) site.depth)
        (state.named id (proposedName graph id site)) := by
  simp only [typeNominal, bind, EStateM.bind, resolveName_run, get_run, State.named_globalName,
    State.named_scope, fresh.unpromoted, fresh.hidden]

theorem typeNominal_follows (follows : Follows J typer) {id : NodeId} (site : Site)
    (state : State) (nominal : (graph.kind id).isNominal = true) :
    ∃ events verdict next,
      typeNominal graph settings typer id site state = ending verdict next ∧
      Step graph settings J id site state events verdict next := by
  cases promoted : state.globals.globalName id with
  | some known =>
      exact ⟨[], .ok _, _, typeNominal_promoted site promoted, .promoted nominal promoted⟩
  | none =>
      cases visible : state.scope.lookup id with
      | some known =>
          exact ⟨[], .ok _, _, typeNominal_visible site promoted visible,
            .visible nominal promoted visible⟩
      | none =>
          have fresh : Undeclared graph id state := ⟨nominal, promoted, visible⟩
          rw [typeNominal_undeclared site fresh]
          cases global : isGlobal settings (graph.label id) (site.declared.map graph.label)
              site.depth with
          | true => exact declareGlobal_follows follows fresh global
          | false => exact declareLocal_follows follows fresh global

/-- One typing step follows the rules. -/
theorem typeNode_follows (follows : Follows J typer) (id : NodeId) (site : Site) (state : State) :
    ∃ events verdict next,
      typeNode graph settings typer id site state = ending verdict next ∧
      Step graph settings J id site state events verdict next := by
  have optional {inner : NodeId}
      (kind : graph.kind id = .optional inner ∨ graph.kind id = .nullable inner) :
      ∃ events verdict next,
        typeOptional graph typer id site state = ending verdict next ∧
        Step graph settings J id site state events verdict next := by
    cases chain : unwrap? graph graph.size id site.declared with
    | none =>
        refine ⟨[], .error _, state, ?_, .endless kind chain⟩
        simp only [typeOptional, chain]
        rfl
    | some base =>
        obtain ⟨base, declared⟩ := base
        obtain ⟨events, verdict, next, run, derived⟩ :=
          follows base (site.descend true declared) state
        refine ⟨events, _, next, ?_, .optional kind chain derived⟩
        simp only [typeOptional, chain]
        exact map_ending run
  cases kind : graph.kind id with
  | primitive p => exact ⟨[], .ok _, state, by simp only [typeNode, kind]; rfl, .primitive kind⟩
  | empty => exact ⟨[], .ok _, state, by simp only [typeNode, kind]; rfl, .empty kind⟩
  | unsupported typeName =>
      exact ⟨[], .error _, state, by simp only [typeNode, kind]; rfl, .unsupported kind⟩
  | optional inner =>
      simp only [typeNode, kind]
      exact optional (.inl kind)
  | nullable inner =>
      simp only [typeNode, kind]
      exact optional (.inr kind)
  | collection arrangement element =>
      obtain ⟨events, verdict, next, run, derived⟩ :=
        follows element (site.descend false (declaredBy graph id site.declared)) state
      refine ⟨events, _, next, ?_, .collection kind derived⟩
      simp only [typeNode, kind]
      exact map_ending run
  | transform inner =>
      obtain ⟨events, verdict, next, run, derived⟩ :=
        follows inner (site.descend site.marked (declaredBy graph id site.declared)) state
      refine ⟨events, verdict, next, ?_, .transform kind derived⟩
      simp only [typeNode, kind]
      exact run
  | object | enumeration | literal | union =>
      simp only [typeNode, kind]
      exact typeNominal_follows follows site state (by simp [kind, Kind.isNominal])

theorem typeWithin_limit (budget : Nat) (id : NodeId) (site : Site) {state : State}
    (deep : maxDepth ≤ state.callDepth) :
    typeWithin graph settings (budget + 1) id site state =
      .error (.recursionLimit maxDepth) state := by
  simp only [typeWithin, bind, EStateM.bind, get_run, ge_iff_le, if_pos deep]
  rfl

theorem typeWithin_inside (budget : Nat) (id : NodeId) (site : Site) {state : State}
    (room : state.callDepth < maxDepth) :
    typeWithin graph settings (budget + 1) id site state =
      deeper (typeNode graph settings (typeWithin graph settings budget) id site) state := by
  simp only [typeWithin, bind, EStateM.bind, get_run, ge_iff_le, if_neg (Nat.not_le.mpr room)]

/-- Typing follows the rules, whatever the budget. -/
theorem typeWithin_follows (graph : Graph) (settings : Settings) (budget : Nat) :
    Follows (Derives graph settings budget) (typeWithin graph settings budget) := by
  induction budget with
  | zero => exact fun id site state => ⟨[], .error _, state, rfl, rfl, rfl, rfl⟩
  | succ budget ih =>
      intro id site state
      by_cases deep : maxDepth ≤ state.callDepth
      · exact ⟨[], .error _, state, typeWithin_limit budget id site deep, .limit deep⟩
      · obtain ⟨events, verdict, next, run, step⟩ := typeNode_follows ih id site state.enter
        refine ⟨events, verdict, next.leave, ?_, .inside (Nat.lt_of_not_le deep) step⟩
        rw [typeWithin_inside budget id site (Nat.lt_of_not_le deep)]
        exact deeper_ending run

/-- A call does what typing does on the scope of its position, and goes back to the scope before. -/
theorem typeAt_run {id : NodeId} {position : Position} {state next : State} {verdict : Verdict}
    (run : typeHere graph settings id position.toSite (state.within position.scope) =
      ending verdict next) :
    typeAt graph settings id position state =
      ending (verdict.map fun typed => ⟨typed, next.scope⟩) (next.within state.scope) := by
  simp only [State.within] at run
  cases verdict <;>
    simp only [typeAt, onCopy, bind, EStateM.bind, run, ending, get_run, pure, EStateM.pure,
      State.within, Except.map]

end

end RouterClient.Typing
