import RouterClient.Proofs.Typing.Containment
import RouterClient.Proofs.Typing.Depth
import RouterClient.Proofs.Typing.Determined

/-! # Typing where fewer steps stand around it

The number of steps that stand one inside the other matters only where the limit is met, and a node that
meets it is reported or fails.  So a run that neither fails for the limit nor reports it is the same
wherever fewer steps stand around it.
-/

namespace RouterClient.Typing

open Model (GlobalModels Scope)
open Schema (NodeId Graph)
open Code (Declaration)

/-- The state with another number of steps around it. -/
def State.atDepth (state : State) (depth : Nat) : State :=
  { state with callDepth := depth }

/-- What has been reported since is not about the limit. -/
def ClearSince (before after : List Diagnostic) : Prop :=
  ∃ new, after = before ++ new ∧ ∀ diagnostic ∈ new, diagnostic.failure.WithinLimit

/-- Typing that neither fails for the limit nor reports it. -/
structure Clears (state : State) (verdict : Verdict) (next : State) : Prop where
  verdict : ∀ failure, verdict = .error failure → failure.WithinLimit
  reports : ClearSince state.diagnostics next.diagnostics

/-- What is derived clear of the limit inside `depth` steps is derived inside `fewer` steps. -/
def Relocates (depth fewer : Nat) (J J' : Judgement) : Prop :=
  ∀ ⦃id site state events verdict next⦄, J id site state events verdict next →
    state.callDepth = depth → Clears state verdict next →
    J' id site (state.atDepth fewer) events verdict (next.atDepth fewer)

section

variable {before middle after : List Diagnostic}

/-- Reports that are clear as a whole are clear in each part. -/
theorem ClearSince.split (clear : ClearSince before after) (first : before <+: middle)
    (second : middle <+: after) : ClearSince before middle ∧ ClearSince middle after := by
  obtain ⟨early, rfl⟩ := first
  obtain ⟨late, rfl⟩ := second
  obtain ⟨new, same, clear⟩ := clear
  rw [List.append_assoc, List.append_cancel_left_eq] at same
  subst same
  obtain ⟨earlier, later⟩ := List.forall_mem_append.mp clear
  exact ⟨⟨early, rfl, earlier⟩, ⟨late, rfl, later⟩⟩

theorem Clears.of_map {state next : State} {verdict : Verdict} {f : Option Typed → Option Typed}
    (clears : Clears state (verdict.map f) next) : Clears state verdict next where
  verdict failure same := by
    subst same
    exact clears.verdict failure rfl
  reports := clears.reports

end

section

variable {graph : Graph} {settings : Settings} {budget : Nat} {depth fewer : Nat} {J : Judgement}
  {id : NodeId} {state next : State} {events : List Event}

theorem Undeclared.atDepth (fresh : Undeclared graph id state) (depth : Nat) :
    Undeclared graph id (state.atDepth depth) :=
  ⟨fresh.nominal, fresh.unpromoted, fresh.hidden⟩

theorem Members.diagnostics_prefix {δ : Type} {scope : Scope} {members : List (Member δ)}
    {draft final : δ}
    (runs : Members (Derives graph settings budget) scope members draft state events final next) :
    state.diagnostics <+: next.diagnostics := by
  refine runs.chain (R := fun state _ next => state.diagnostics <+: next.diagnostics)
    (fun _ => List.prefix_rfl) List.IsPrefix.trans ?_
  intro _ _ _ _ _ next location failure derived
  have grows := derived.diagnostics_prefix
  cases failure with
  | none => exact grows
  | some failure => exact grows.trans (List.prefix_append _ _)

theorem Members.relocated {δ : Type}
    (relocates : Relocates depth fewer (Derives graph settings budget) J) {scope : Scope}
    {members : List (Member δ)} {draft final : δ}
    (runs : Members (Derives graph settings budget) scope members draft state events final next)
    (level : state.callDepth = depth)
    (clear : ClearSince state.diagnostics next.diagnostics) :
    Members J scope members draft (state.atDepth fewer) events final (next.atDepth fewer) := by
  induction runs with
  | nil => exact .nil
  | @cons member _ draft state _ verdict next _ _ _ derived rest ih =>
      -- A member that fails is reported, so a clear report tells that it did not fail for the limit.
      have typed := derived.diagnostics_prefix
      have noted : next.diagnostics <+:
          ((next.within state.scope).note member.location (member.settle draft verdict).2).diagnostics := by
        cases (member.settle draft verdict).2 with
        | none => exact List.prefix_rfl
        | some failure => exact List.prefix_append _ _
      obtain ⟨clear, later⟩ := clear.split (typed.trans noted) rest.diagnostics_prefix
      obtain ⟨inside, report⟩ := clear.split typed noted
      have clears : Clears (state.within scope) verdict next := by
        refine ⟨fun failure same => ?_, inside⟩
        subst same
        obtain ⟨new, reported, clear⟩ := report
        obtain rfl : [⟨member.location, failure⟩] = new := List.append_cancel_left reported
        exact clear _ List.mem_cons_self
      have level' : ((next.within state.scope).note member.location
          (member.settle draft verdict).2).callDepth = depth := by
        rw [State.note_callDepth, State.within_callDepth, derived.callDepth_eq]
        exact level
      have rest' := ih level' later
      have same : ((next.within state.scope).note member.location
          (member.settle draft verdict).2).atDepth fewer =
          ((next.atDepth fewer).within state.scope).note member.location
            (member.settle draft verdict).2 := by
        cases (member.settle draft verdict).2 <;> rfl
      rw [same] at rest'
      exact .cons (relocates derived level clears) rest'

theorem Declares.relocated (relocates : Relocates depth fewer (Derives graph settings budget) J)
    {name : String} {description : Option String} {scope : Scope} {nesting : Nat}
    {definition : Option Declaration}
    (declares : Declares graph settings (Derives graph settings budget) id name description scope
      nesting state events definition next)
    (level : state.callDepth = depth)
    (clear : ClearSince state.diagnostics next.diagnostics) :
    Declares graph settings J id name description scope nesting (state.atDepth fewer) events
      definition (next.atDepth fewer) := by
  cases declares with
  | record kind runs => exact .record kind (runs.relocated relocates level clear)
  | enumeration kind => exact .enumeration kind
  | literal kind => exact .literal kind
  | union kind runs => exact .union kind (runs.relocated relocates level clear)

/-- One typing step inside fewer steps. -/
theorem Step.relocated (relocates : Relocates depth fewer (Derives graph settings budget) J) :
    Relocates depth fewer (Step graph settings (Derives graph settings budget))
      (Step graph settings J) := by
  intro id site state events verdict next step level clears
  cases step with
  | primitive kind => exact .primitive kind
  | empty kind => exact .empty kind
  | unsupported kind => exact .unsupported kind
  | endless kind chain => exact .endless kind chain
  | optional kind chain inner =>
      exact .optional kind chain (relocates inner level clears.of_map)
  | collection kind inner => exact .collection kind (relocates inner level clears.of_map)
  | transform kind inner => exact .transform kind (relocates inner level clears)
  | promoted nominal promoted => exact .promoted nominal promoted
  | visible nominal unpromoted visible => exact .visible nominal unpromoted visible
  | accepted fresh global same declares registered =>
      have made := declares.relocated relocates level clears.reports
      exact .accepted (fresh.atDepth fewer) global same made registered
  | collided fresh global same declares registered =>
      have made := declares.relocated relocates level clears.reports
      exact .collided (fresh.atDepth fewer) global same made registered
  | void fresh global same declares =>
      have made := declares.relocated relocates level clears.reports
      exact .void (fresh.atDepth fewer) global same made
  | nested fresh kept same declares =>
      have made := declares.relocated relocates level clears.reports
      exact .nested (fresh.atDepth fewer) kept same made
  | hollow fresh kept same declares =>
      have made := declares.relocated relocates level clears.reports
      exact .hollow (fresh.atDepth fewer) kept same made

/-- A run that is clear of the limit is the same wherever fewer steps stand around it. -/
theorem Derives.relocated (graph : Graph) (settings : Settings) {budget other : Nat}
    (below : fewer ≤ depth) (enough : maxDepth ≤ other + fewer) :
    Relocates depth fewer (Derives graph settings budget) (Derives graph settings other) := by
  induction budget generalizing other depth fewer with
  | zero =>
      rintro id site state events verdict next ⟨rfl, rfl, rfl⟩ _ clears
      exact absurd rfl (clears.verdict _ rfl maxDepth)
  | succ budget ih =>
      intro id site state events verdict next derived level clears
      cases derived with
      | limit deep => exact absurd rfl (clears.verdict _ rfl maxDepth)
      | inside room step =>
          cases other with
          | zero => omega
          | succ other =>
              have inner : Relocates (depth + 1) (fewer + 1) (Derives graph settings budget)
                  (Derives graph settings other) := ih (by omega) (by omega)
              have step' := Step.relocated inner step (congrArg (· + 1) level)
                ⟨clears.verdict, clears.reports⟩
              have room' : fewer < maxDepth := by omega
              have whole : Guarded graph settings (Derives graph settings other) id site
                  (state.atDepth fewer) events verdict _ := .inside room' step'
              exact whole

end

end RouterClient.Typing
