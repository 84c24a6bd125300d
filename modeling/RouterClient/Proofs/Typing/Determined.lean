import RouterClient.Proofs.Typing.Following

/-! # Typing does what is derived

What the rules of typing derive is what the typing functions come to.  So a derivation that has been
made from another one, from another state or with another budget, tells what happens there.
-/

namespace RouterClient.Typing

open Model (Scope)
open Schema (NodeId Graph Kind)
open Code (Declaration)

/-- A typer that does whatever can be derived. -/
def Obeys (J : Judgement) (typer : Typer) : Prop :=
  ∀ ⦃id site state events verdict next⦄, J id site state events verdict next →
    typer id site state = ending verdict next

section

variable {graph : Graph} {settings : Settings} {J : Judgement} {typer : Typer} {id : NodeId}
  {site : Site} {state next : State} {events : List Event}

theorem typeMembers_obeys {δ : Type} (obeys : Obeys J typer) {scope : Scope}
    {members : List (Member δ)} {draft final : δ} {last : State}
    (runs : Members J scope members draft state events final last) :
    typeMembers typer scope members draft state = .ok final last := by
  induction runs with
  | nil => rfl
  | @cons _ _ draft _ _ _ _ _ _ _ derived _ ih =>
      have first := typeMember_run draft (obeys derived)
      simp only [typeMembers, List.foldlM_cons, bind, EStateM.bind, first]
      exact ih

theorem declare_obeys (obeys : Obeys J typer) {name : String} {description : Option String}
    {scope : Scope} {depth : Nat} {definition : Option Declaration}
    (declares : Declares graph settings J id name description scope depth state events definition
      next) :
    declare graph settings typer id name description scope depth state = .ok definition next := by
  cases declares with
  | record kind runs =>
      have run := typeMembers_obeys obeys runs
      simp only [declare, kind, declareRecord, Functor.map, EStateM.map, bind, EStateM.bind, run]
      rfl
  | enumeration kind | literal kind =>
      simp only [declare, kind]
      rfl
  | union kind runs =>
      have run := typeMembers_obeys obeys runs
      simp only [declare, kind, declareUnion, bind, EStateM.bind, run]
      rfl

theorem typeNode_nominal (nominal : (graph.kind id).isNominal = true) :
    typeNode graph settings typer id site = typeNominal graph settings typer id site := by
  cases kind : graph.kind id with
  | object | enumeration | literal | union => simp only [typeNode, kind]
  | _ => simp [kind, Kind.isNominal] at nominal

/-- One typing step does what its rule says. -/
theorem typeNode_obeys (obeys : Obeys J typer) {verdict : Verdict}
    (step : Step graph settings J id site state events verdict next) :
    typeNode graph settings typer id site state = ending verdict next := by
  cases step with
  | primitive kind | empty kind | unsupported kind =>
      simp only [typeNode, kind]
      rfl
  | endless kind chain =>
      rcases kind with kind | kind <;> simp only [typeNode, kind, typeOptional, chain] <;> rfl
  | optional kind chain inner =>
      have run := map_ending (f := Option.map (Typed.mark site.marked)) (obeys inner)
      rcases kind with kind | kind <;> simpa only [typeNode, kind, typeOptional, chain] using run
  | collection kind inner =>
      simp only [typeNode, kind]
      exact map_ending (obeys inner)
  | transform kind inner =>
      simp only [typeNode, kind]
      exact obeys inner
  | promoted nominal promoted =>
      rw [typeNode_nominal nominal]
      exact typeNominal_promoted site promoted
  | visible nominal unpromoted visible =>
      rw [typeNode_nominal nominal]
      exact typeNominal_visible site unpromoted visible
  | accepted fresh global same declares registered
  | collided fresh global same declares registered =>
      subst same
      rw [typeNode_nominal fresh.nominal, typeNominal_undeclared site fresh, if_pos global]
      exact declareGlobal_registered (declare_obeys obeys declares) registered
  | void fresh global same declares =>
      subst same
      rw [typeNode_nominal fresh.nominal, typeNominal_undeclared site fresh, if_pos global]
      exact declareGlobal_void (declare_obeys obeys declares)
  | nested fresh kept same declares =>
      subst same
      rw [typeNode_nominal fresh.nominal, typeNominal_undeclared site fresh, kept]
      exact declareLocal_nested (declare_obeys obeys declares)
  | hollow fresh kept same declares =>
      subst same
      rw [typeNode_nominal fresh.nominal, typeNominal_undeclared site fresh, kept]
      exact declareLocal_hollow (declare_obeys obeys declares)

/-- Typing does what is derived, whatever the budget. -/
theorem typeWithin_obeys (graph : Graph) (settings : Settings) (budget : Nat) :
    Obeys (Derives graph settings budget) (typeWithin graph settings budget) := by
  induction budget with
  | zero =>
      rintro id site state events verdict next ⟨rfl, rfl, rfl⟩
      rfl
  | succ budget ih =>
      intro id site state events verdict next derived
      cases derived with
      | limit deep => exact typeWithin_limit budget id site deep
      | inside room step =>
          rw [typeWithin_inside budget id site room]
          exact deeper_ending (typeNode_obeys ih step)

/-- Typing comes to a verdict and a state exactly where that can be derived. -/
theorem typeHere_iff {verdict : Verdict} :
    typeHere graph settings id site state = ending verdict next ↔
      ∃ events, Derives graph settings maxDepth id site state events verdict next := by
  constructor
  · intro run
    obtain ⟨events, other, last, ran, derived⟩ :=
      typeWithin_follows graph settings maxDepth id site state
    obtain ⟨rfl, rfl⟩ := ending_inj (ran.symm.trans run)
    exact ⟨events, derived⟩
  · rintro ⟨events, derived⟩
    exact typeWithin_obeys graph settings maxDepth derived

end

end RouterClient.Typing
