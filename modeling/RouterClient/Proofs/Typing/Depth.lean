import RouterClient.Proofs.Typing.Registry
import RouterClient.Proofs.Typing.Passages
import Mathlib.Algebra.Group.Nat.Defs

/-! # How deep typing goes

A node is declared for the whole file at most once in a stack of typing steps, and at most once as a
local model between two such declarations, since a global declaration starts with an empty scope.
Between two declarations stands no more than a passage through wrappers and collections.  So the
steps of a small graph never come near the limit, whatever is visible and whatever has been declared.
-/

namespace RouterClient

/-- A failure that is not about too many steps. -/
def Failure.WithinLimit (failure : Failure) : Prop :=
  ∀ limit, failure ≠ .recursionLimit limit

end RouterClient

namespace RouterClient.Typing

open Model (GlobalModels Scope)
open Schema (NodeId Graph Kind)
open Code (Declaration)

/-- The nominal nodes that cannot be mentioned by a global name. -/
def unpromoted (graph : Graph) (state : State) : Finset NodeId :=
  graph.nominals.filter fun id => state.globals.globalName id = none

/-- The nominal nodes that cannot be mentioned at all. -/
def hidden (graph : Graph) (state : State) : Finset NodeId :=
  (unpromoted graph state).filter fun id => state.scope.lookup id = none

/-- How many declarations can stand one inside the other from a state on: local models of hidden nodes,
and, inside of each global declaration, as many local models as there are nodes. -/
def declarable (graph : Graph) (state : State) : Nat :=
  (hidden graph state).card + (unpromoted graph state).card * graph.nominals.card

section

variable {graph : Graph} {before after : State} {id : NodeId}

theorem mem_unpromoted :
    id ∈ unpromoted graph before ↔
      (graph.kind id).isNominal = true ∧ before.globals.globalName id = none := by
  rw [unpromoted, Finset.mem_filter, Graph.mem_nominals]

theorem mem_hidden : id ∈ hidden graph before ↔ Undeclared graph id before := by
  rw [hidden, Finset.mem_filter, mem_unpromoted]
  exact ⟨fun ⟨⟨nominal, free⟩, hidden⟩ => ⟨nominal, free, hidden⟩,
    fun fresh => ⟨⟨fresh.nominal, fresh.unpromoted⟩, fresh.hidden⟩⟩

theorem card_unpromoted_le (graph : Graph) (state : State) :
    (unpromoted graph state).card ≤ graph.nominals.card :=
  Finset.card_filter_le _ _

theorem card_hidden_le (graph : Graph) (state : State) :
    (hidden graph state).card ≤ (unpromoted graph state).card :=
  Finset.card_filter_le _ _

theorem declarable_le (graph : Graph) (state : State) :
    declarable graph state ≤ graph.nominals.card + graph.nominals.card * graph.nominals.card := by
  have fewer := card_unpromoted_le graph state
  exact Nat.add_le_add ((card_hidden_le graph state).trans fewer) (Nat.mul_le_mul_right _ fewer)

/-- Nodes that can be mentioned by a global name stay so. -/
def Keeps (before after : State) : Prop :=
  ∀ id name, before.globals.globalName id = some name → after.globals.globalName id = some name

theorem Keeps.unpromoted_subset (keeps : Keeps before after) :
    unpromoted graph after ⊆ unpromoted graph before := by
  intro id free
  rw [mem_unpromoted] at free ⊢
  refine ⟨free.1, ?_⟩
  cases known : before.globals.globalName id with
  | none => rfl
  | some name => simp [keeps id name known] at free

theorem Keeps.declarable_le (keeps : Keeps before after) (scope : after.scope = before.scope) :
    declarable graph after ≤ declarable graph before := by
  have fewer : unpromoted graph after ⊆ unpromoted graph before := keeps.unpromoted_subset
  have hidden : hidden graph after ⊆ hidden graph before := by
    intro id found
    obtain ⟨free, unseen⟩ := Finset.mem_filter.mp found
    exact Finset.mem_filter.mpr ⟨fewer free, scope ▸ unseen⟩
  exact Nat.add_le_add (Finset.card_le_card hidden)
    (Nat.mul_le_mul_right _ (Finset.card_le_card fewer))

/-- A global declaration leaves one node less that can be declared globally, and that is worth all
the local models inside of it. -/
theorem declarable_lt_of_global (fresh : Undeclared graph id before) (keeps : Keeps before after)
    {name : String} (promoted : after.globals.globalName id = some name) :
    declarable graph after < declarable graph before := by
  have fewer : (unpromoted graph after).card < (unpromoted graph before).card := by
    apply Finset.card_lt_card
    refine (Finset.ssubset_iff_of_subset keeps.unpromoted_subset).mpr ⟨id, ?_, ?_⟩
    · exact mem_unpromoted.mpr ⟨fresh.nominal, fresh.unpromoted⟩
    · simp [mem_unpromoted, promoted]
  have inner := card_hidden_le graph after
  have all := card_unpromoted_le graph before
  unfold declarable
  calc (hidden graph after).card + (unpromoted graph after).card * graph.nominals.card
    _ < graph.nominals.card + (unpromoted graph after).card * graph.nominals.card := by omega
    _ = ((unpromoted graph after).card + 1) * graph.nominals.card := by
      rw [Nat.succ_mul, Nat.add_comm]
    _ ≤ (unpromoted graph before).card * graph.nominals.card := Nat.mul_le_mul_right _ fewer
    _ ≤ _ := Nat.le_add_left _ _

/-- A local model leaves one node less hidden. -/
theorem declarable_lt_of_local (fresh : Undeclared graph id before) (keeps : Keeps before after)
    {name : String} (scope : after.scope = before.scope.insert id name) :
    declarable graph after < declarable graph before := by
  have fewer : unpromoted graph after ⊆ unpromoted graph before := keeps.unpromoted_subset
  -- A scope with one more name hides no more nodes.
  have within : hidden graph after ⊆ hidden graph before := by
    intro other found
    obtain ⟨free, unseen⟩ := Finset.mem_filter.mp found
    refine Finset.mem_filter.mpr ⟨fewer free, ?_⟩
    rw [scope, Scope.lookup_insert] at unseen
    split at unseen
    · cases unseen
    · exact unseen
  have less : (hidden graph after).card < (hidden graph before).card := by
    apply Finset.card_lt_card
    refine (Finset.ssubset_iff_of_subset within).mpr ⟨id, mem_hidden.mpr fresh, fun found => ?_⟩
    have unseen := (mem_hidden.mp found).hidden
    rw [scope, Scope.lookup_insert, if_pos rfl] at unseen
    cases unseen
  exact Nat.add_lt_add_of_lt_of_le less (Nat.mul_le_mul_right _ (Finset.card_le_card fewer))

end

/-- The steps around a state, a passage from a node on and all declarations that can come after it
stay within the limit, where no passage has more than `width` nodes. -/
def Room (graph : Graph) (width : Nat) (id : NodeId) (state : State) : Prop :=
  ∀ path, graph.Passage id path →
    state.callDepth + path.length + declarable graph state * (width + 1) ≤ maxDepth

/-- Nothing new has been reported that is about too many steps. -/
def Quiet (before after : State) : Prop :=
  ∀ diagnostic ∈ after.diagnostics,
    diagnostic ∈ before.diagnostics ∨ diagnostic.failure.WithinLimit

/-- A typing step that neither comes to a failure about too many steps nor reports one. -/
structure Passes (state : State) (verdict : Verdict) (next : State) : Prop where
  verdict : ∀ failure, verdict = .error failure → failure.WithinLimit
  reports : Quiet state next

theorem Quiet.of_eq {before after : State} (same : after.diagnostics = before.diagnostics) :
    Quiet before after :=
  fun _ reported => .inl (same ▸ reported)

theorem Quiet.trans {first second third : State} (early : Quiet first second)
    (late : Quiet second third) : Quiet first third := by
  intro diagnostic reported
  rcases late diagnostic reported with reported | clear
  · exact early diagnostic reported
  · exact .inr clear

theorem Quiet.note {before after : State} {location : String} {kept : Option Failure}
    (quiet : Quiet before after) (clear : ∀ failure, kept = some failure → failure.WithinLimit) :
    Quiet before (after.note location kept) := by
  intro diagnostic reported
  cases kept with
  | none => exact quiet diagnostic reported
  | some failure =>
      rcases List.mem_append.mp reported with reported | new
      · exact quiet diagnostic reported
      · obtain rfl := List.mem_singleton.mp new
        exact .inr (clear failure rfl)

theorem Passes.ok {state next : State} (result : Option Typed) (reports : Quiet state next) :
    Passes state (.ok result) next :=
  ⟨fun _ same => (by cases same), reports⟩

theorem Passes.map {state next : State} {verdict : Verdict} (passes : Passes state verdict next)
    (f : Option Typed → Option Typed) : Passes state (verdict.map f) next := by
  cases verdict with
  | error failure => exact ⟨passes.verdict, passes.reports⟩
  | ok result => exact .ok _ passes.reports

theorem withinLimit_nameCollision (name : String) : (Failure.nameCollision name).WithinLimit := by
  intro limit same
  cases same

theorem absorb?_withinLimit {models : Model.LocalModels Declaration}
    {model : Option (Model.LocalModel Declaration)} {failure : Failure}
    (refused : models.absorb? model = .error failure) : failure.WithinLimit := by
  cases model with
  | none => cases refused
  | some model =>
      simp only [Model.LocalModels.absorb?, Model.LocalModels.absorb] at refused
      split at refused
      · cases refused
      · split at refused
        · cases refused
          exact withinLimit_nameCollision _
        · cases refused

/-- A member that is kept out of its declaration for other reasons than the steps around it. -/
def Member.Clear {δ : Type} (member : Member δ) : Prop :=
  ∀ draft typed failure, member.add draft typed = .error failure → failure.WithinLimit

theorem fieldMember_clear (graph : Graph) (settings : Settings) (name : String) (depth : Nat)
    (field : String × NodeId) : (fieldMember graph settings name depth field).Clear := by
  intro draft typed failure refused
  simp only [fieldMember, RecordDraft.addField] at refused
  split at refused
  · cases refused
    exact withinLimit_nameCollision _
  · split at refused
    · next found =>
      cases refused
      exact absorb?_withinLimit found
    · cases refused

theorem optionMember_clear (graph : Graph) (name : String) (depth : Nat) (option : NodeId × Nat) :
    (optionMember graph name depth option).Clear := by
  intro draft typed failure refused
  simp only [optionMember, UnionDraft.addOption] at refused
  split at refused
  · next found =>
    cases refused
    exact absorb?_withinLimit found
  · cases refused

theorem Member.Clear.settle {δ : Type} {member : Member δ} (clear : member.Clear) (draft : δ)
    {verdict : Verdict} (passed : ∀ failure, verdict = .error failure → failure.WithinLimit) :
    ∀ failure, (member.settle draft verdict).2 = some failure → failure.WithinLimit := by
  intro failure kept
  unfold Member.settle at kept
  split at kept
  · cases kept
    exact passed _ rfl
  · cases kept
  · split at kept
    · next refused =>
      cases kept
      exact clear _ _ _ refused
    · cases kept

section

variable {graph : Graph} {settings : Settings} {width budget : Nat}

/-- Derivations that have room pass. -/
def Roomy (graph : Graph) (settings : Settings) (width budget : Nat) : Prop :=
  ∀ {id site state events verdict next}, maxDepth ≤ budget + state.callDepth →
    Room graph width id state.enter → Derives graph settings budget id site state events verdict next →
    Passes state verdict next

theorem Derives.keeps {id : NodeId} {site : Site} {state next : State} {events : List Event}
    {verdict : Verdict} (derived : Derives graph settings budget id site state events verdict next) :
    Keeps state next :=
  derived.evolves.promoted

/-- The members of a declaration, when there is room for each of them. -/
theorem Members.quiet {δ : Type} {scope : Scope} {members : List (Member δ)} {draft final : δ}
    {state last : State} {events : List Event}
    (longest : ∀ id path, graph.Passage id path → path.length ≤ width)
    (below : Roomy graph settings width budget) (clear : ∀ member ∈ members, member.Clear)
    (reach : maxDepth ≤ budget + state.callDepth)
    (room : state.callDepth + 1 + width + declarable graph (state.within scope) * (width + 1) ≤
      maxDepth)
    (runs : Members (Derives graph settings budget) scope members draft state events final last) :
    Quiet state last := by
  induction runs with
  | nil => exact .of_eq rfl
  | @cons member more draft state events verdict next events' final last derived _ ih =>
      have passes : Passes (state.within scope) verdict next := by
        refine below reach (fun path passage => ?_) derived
        have bounded := longest _ path passage
        have same : declarable graph (state.within scope).enter =
          declarable graph (state.within scope) := rfl
        have depth : (state.within scope).enter.callDepth = state.callDepth + 1 := rfl
        rw [same, depth]
        omega
      have settled : Quiet state ((next.within state.scope).note member.location
          (member.settle draft verdict).2) :=
        Quiet.note passes.reports ((clear member List.mem_cons_self).settle draft passes.verdict)
      have level : ((next.within state.scope).note member.location
          (member.settle draft verdict).2).callDepth = state.callDepth := by
        rw [State.note_callDepth]
        exact derived.callDepth_eq
      -- What a member has promoted on the way leaves no less room for those after it.
      have fewer : declarable graph (((next.within state.scope).note member.location
          (member.settle draft verdict).2).within scope) ≤
            declarable graph (state.within scope) := by
        refine Keeps.declarable_le (fun id name known => ?_) rfl
        rw [State.within_globals, State.note_globals]
        exact derived.keeps id name known
      have fits := Nat.mul_le_mul_right (width + 1) fewer
      refine settled.trans (ih ?_ ?_ ?_)
      · exact fun other listed => clear other (List.mem_cons_of_mem _ listed)
      · rw [level]
        exact reach
      · rw [level]
        omega

theorem Declares.quiet {id : NodeId} {name : String} {description : Option String} {scope : Scope}
    {depth : Nat} {state next : State} {events : List Event} {definition : Option Declaration}
    (longest : ∀ id path, graph.Passage id path → path.length ≤ width)
    (below : Roomy graph settings width budget) (reach : maxDepth ≤ budget + state.callDepth)
    (room : state.callDepth + 1 + width + declarable graph (state.within scope) * (width + 1) ≤
      maxDepth)
    (declares : Declares graph settings (Derives graph settings budget) id name description scope
      depth state events definition next) :
    Quiet state next := by
  cases declares with
  | record _ runs =>
      refine runs.quiet longest below (fun member listed => ?_) reach room
      obtain ⟨field, _, rfl⟩ := List.mem_map.mp listed
      exact fieldMember_clear graph settings name depth field
  | enumeration _ => exact .of_eq rfl
  | literal _ => exact .of_eq rfl
  | union _ runs =>
      refine runs.quiet longest below (fun member listed => ?_) reach room
      obtain ⟨option, _, rfl⟩ := List.mem_map.mp listed
      exact optionMember_clear graph name depth option

theorem Room.callDepth_le {id : NodeId} {state : State} (room : Room graph width id state) :
    state.callDepth ≤ maxDepth := by
  have bounded := room [] (.stop id)
  omega

/-- Where there is room for a node, there is room for the members of its declaration. -/
theorem Room.members {id : NodeId} {state : State} (room : Room graph width id state)
    (inner : State) (level : inner.callDepth = state.callDepth)
    (less : declarable graph inner < declarable graph state) :
    inner.callDepth + 1 + width + declarable graph inner * (width + 1) ≤ maxDepth := by
  have bounded := room [] (.stop id)
  have fits := Nat.mul_le_mul_right (width + 1) less
  rw [Nat.succ_mul] at fits
  rw [List.length_nil] at bounded
  omega

theorem Room.hoisted {id : NodeId} {state : State} (room : Room graph width id state)
    (fresh : Undeclared graph id state) (proposal name : String) :
    (state.reserved id proposal).callDepth + 1 + width +
      declarable graph ((state.reserved id proposal).within (Scope.insert {} id name)) *
        (width + 1) ≤ maxDepth := by
  refine room.members ((state.reserved id proposal).within (Scope.insert {} id name)) rfl ?_
  refine declarable_lt_of_global fresh (fun other known found => ?_)
    (GlobalModels.globalName_reserveOwn_self state.globals id proposal)
  have different : id ≠ other := by
    rintro rfl
    rw [fresh.unpromoted] at found
    cases found
  exact (GlobalModels.globalName_reserveOwn_of_ne _ _ _ different).trans found

theorem Room.nested {id : NodeId} {state : State} (room : Room graph width id state)
    (fresh : Undeclared graph id state) (proposal name : String) :
    (state.shown id proposal).callDepth + 1 + width +
      declarable graph ((state.shown id proposal).within (state.scope.insert id name)) *
        (width + 1) ≤ maxDepth := by
  refine room.members ((state.shown id proposal).within (state.scope.insert id name)) rfl ?_
  refine declarable_lt_of_local fresh (fun other known found => ?_) rfl
  exact (state.named_globalName id other proposal).trans found

section

variable {id : NodeId} {site : Site} {state next : State} {events : List Event}
  (longest : ∀ id path, graph.Passage id path → path.length ≤ width)
  (below : Roomy graph settings width budget) (reach : maxDepth ≤ budget + state.callDepth)
  (room : Room graph width id state)
include below reach room

/-- A node that stands further on every passage has room one step further in. -/
theorem passes_inside {base : NodeId} {verdict : Verdict}
    (further : ∀ path, graph.Passage base path →
      ∃ longer, graph.Passage id longer ∧ path.length < longer.length)
    (derived : Derives graph settings budget base site state events verdict next) :
    Passes state verdict next := by
  refine below reach (fun path passage => ?_) derived
  obtain ⟨longer, found, more⟩ := further path passage
  have bounded := room longer found
  have same : declarable graph state.enter = declarable graph state := rfl
  have level : state.enter.callDepth = state.callDepth + 1 := rfl
  rw [same, level]
  omega

theorem passes_led {inner : NodeId} {verdict : Verdict} (leads : graph.Leads id inner)
    (derived : Derives graph settings budget inner site state events verdict next) :
    Passes state verdict next := by
  refine passes_inside below reach room (fun path passage => ?_) derived
  exact ⟨id :: path, .step leads passage, Nat.lt_succ_self _⟩

include longest

theorem quiet_hoisted {name proposal : String} {description : Option String} {depth : Nat}
    {definition : Option Declaration} (fresh : Undeclared graph id state)
    (declares : Declares graph settings (Derives graph settings budget) id name description
      (Scope.insert {} id name) depth (state.reserved id proposal) events definition next) :
    Quiet state next := by
  have level : (state.reserved id proposal).callDepth = state.callDepth := rfl
  have same : Quiet state (state.reserved id proposal) := .of_eq rfl
  exact same.trans (declares.quiet longest below (level ▸ reach) (room.hoisted fresh proposal name))

theorem quiet_nested {name proposal : String} {description : Option String} {depth : Nat}
    {definition : Option Declaration} (fresh : Undeclared graph id state)
    (declares : Declares graph settings (Derives graph settings budget) id name description
      (state.scope.insert id name) depth (state.shown id proposal) events definition next) :
    Quiet state next := by
  have level : (state.shown id proposal).callDepth = state.callDepth := rfl
  have same : Quiet state (state.shown id proposal) := .of_eq rfl
  exact same.trans (declares.quiet longest below (level ▸ reach) (room.nested fresh proposal name))

/-- One typing step, when there is room for what it enters. -/
theorem Step.passes {verdict : Verdict} (founded : graph.Founded)
    (step : Step graph settings (Derives graph settings budget) id site state events verdict next) :
    Passes state verdict next := by
  cases step with
  | primitive _ => exact .ok _ (.of_eq rfl)
  | empty _ => exact .ok _ (.of_eq rfl)
  | unsupported _ =>
      refine ⟨fun failure same limit => ?_, .of_eq rfl⟩
      cases same
      exact nofun
  | endless _ endless => exact absurd endless (unwrap?_ne_none founded id site.declared)
  | @optional _ _ _ inner base declared _ _ _ kind unwrapped derived =>
      have wrapped : wrapped? (graph.kind id) = some inner := by
        rcases kind with kind | kind <;> rw [kind] <;> rfl
      have further (path : List NodeId) (passage : graph.Passage base path) :=
        exists_longer_passage wrapped unwrapped passage
      exact (passes_inside below reach room further derived).map _
  | @collection _ _ _ arrangement element _ _ _ kind derived =>
      have leads : graph.Leads id element := by
        simp [Graph.Leads, kind, Kind.isPassage, Kind.children]
      exact (passes_led below reach room leads derived).map _
  | @transform _ _ _ inner _ _ _ kind derived =>
      have leads : graph.Leads id inner := by
        simp [Graph.Leads, kind, Kind.isPassage, Kind.children]
      exact passes_led below reach room leads derived
  | promoted _ _ => exact .ok _ (.of_eq rfl)
  | visible _ _ _ => exact .ok _ (.of_eq rfl)
  | accepted fresh _ _ declares _ =>
      have quiet := quiet_hoisted longest below reach room fresh declares
      exact .ok _ (quiet.trans (.of_eq rfl))
  | collided fresh _ _ declares registered =>
      have quiet := quiet_hoisted longest below reach room fresh declares
      refine ⟨fun failure same => ?_, quiet.trans (.of_eq rfl)⟩
      cases same
      obtain ⟨rfl, _⟩ := GlobalModels.register_error registered
      exact withinLimit_nameCollision _
  | void fresh _ _ declares =>
      have quiet := quiet_hoisted longest below reach room fresh declares
      exact .ok _ (quiet.trans (.of_eq rfl))
  | nested fresh _ _ declares =>
      exact .ok _ (quiet_nested longest below reach room fresh declares)
  | hollow fresh _ _ declares =>
      have quiet := quiet_nested longest below reach room fresh declares
      exact .ok _ (quiet.trans (.of_eq rfl))

end

/-- Where there is room, the limit is never met. -/
theorem roomy (founded : graph.Founded)
    (longest : ∀ id path, graph.Passage id path → path.length ≤ width) (settings : Settings)
    (budget : Nat) : Roomy graph settings width budget := by
  -- A budget that is used up means that the steps around the state fill the limit.
  induction budget with
  | zero =>
      intro id site state events verdict next reach room derived
      have bounded := room.callDepth_le
      have level : state.enter.callDepth = state.callDepth + 1 := rfl
      omega
  | succ budget ih =>
      intro id site state events verdict next reach room derived
      have bounded := room.callDepth_le
      have level : state.enter.callDepth = state.callDepth + 1 := rfl
      have deeper : maxDepth ≤ budget + state.enter.callDepth := by omega
      cases derived with
      | limit deep => omega
      | inside _ step =>
          have passes := step.passes longest ih deeper room founded
          exact ⟨passes.verdict, passes.reports⟩

/-- A graph that is small enough for the limit, however its nodes are declared: no wrapper or
collection contains itself through others, a path through wrappers and collections has at most
`width` nodes, and there are few nominal nodes. -/
structure Small (graph : Graph) (width : Nat) : Prop where
  founded : graph.Founded
  longest : ∀ id path, graph.Passage id path → path.Nodup → path.length ≤ width
  bounded : (graph.nominals.card + 1) ^ 2 * (width + 1) ≤ maxDepth

theorem Small.room (small : Small graph width) (id : NodeId) {state : State}
    (level : state.callDepth = 0) : Room graph width id state.enter := by
  intro path passage
  have length := small.longest id path passage (passage.nodup small.founded)
  have most : declarable graph state + 1 ≤ (graph.nominals.card + 1) ^ 2 := by
    have all := declarable_le graph state
    calc declarable graph state + 1
      _ ≤ graph.nominals.card + graph.nominals.card * graph.nominals.card + 1 := by omega
      _ ≤ (graph.nominals.card + 1) ^ 2 := by rw [Nat.pow_two, Nat.succ_mul, Nat.mul_succ]; omega
  have fits := (Nat.mul_le_mul_right (width + 1) most).trans small.bounded
  have entered : state.enter.callDepth = 1 := by
    rw [State.enter, level]
  have same : declarable graph state.enter = declarable graph state := rfl
  rw [Nat.succ_mul] at fits
  rw [entered, same]
  omega

theorem Small.passes (small : Small graph width) {id : NodeId} {site : Site} {state next : State}
    {events : List Event} {verdict : Verdict}
    (derived : Derives graph settings maxDepth id site state events verdict next)
    (level : state.callDepth = 0) : Passes state verdict next := by
  refine roomy small.founded (fun id path passage => ?_) settings maxDepth ?_ (small.room id level)
    derived
  · exact small.longest id path passage (passage.nodup small.founded)
  · omega

theorem Run.quiet {state last : State} {calls : List Call} {log : List Event}
    (small : Small graph width) (level : state.callDepth = 0)
    (run : Run graph settings state calls log last) : Quiet state last := by
  induction run with
  | nil => exact .of_eq rfl
  | cons derived _ ih =>
      have passes := small.passes derived level
      exact Quiet.trans passes.reports (ih (derived.callDepth_eq.trans level))

end

/-- No call on a small graph, in whatever settings, position and scope and after whatever calls, comes
to a failure about too many steps or reports one. -/
theorem calls_within_limit {graph : Graph} {width : Nat} (small : Small graph width)
    (settings : Settings) (calls : List Call) (call : Call) :
    (∀ limit next, typeAt graph settings call.id call.position (afterCalls graph settings calls) ≠
      .error (.recursionLimit limit) next) ∧
    ∀ diagnostic ∈ (afterCalls graph settings (calls ++ [call])).diagnostics,
      ∀ limit, diagnostic.failure ≠ .recursionLimit limit := by
  constructor
  · intro limit last failed
    obtain ⟨_, run⟩ := exists_run graph settings calls {}
    obtain ⟨events, verdict, next, derived, typed⟩ := typeAt_derives graph settings call.id
      call.position (afterCalls graph settings calls)
    have passes := small.passes derived run.callDepth_eq
    cases verdict with
    | ok result => cases typed.symm.trans failed
    | error failure =>
        cases typed.symm.trans failed
        exact passes.verdict _ rfl limit rfl
  · intro diagnostic reported
    obtain ⟨_, run⟩ := exists_run graph settings (calls ++ [call]) {}
    rcases run.quiet small rfl diagnostic reported with absent | clear
    · cases absent
    · exact clear

/-- An object that contains itself, in a list that may be absent and as a value that may be null. -/
def treeGraph : Graph where
  nodes := #[
    { kind := .primitive .string },
    { kind := .object [("label", ⟨0⟩), ("children", ⟨3⟩), ("parent", ⟨4⟩)],
      label := { name := some "Tree" } },
    { kind := .collection .array ⟨1⟩ },
    { kind := .optional ⟨2⟩ },
    { kind := .nullable ⟨1⟩ }]

/-- The longest passage from a node of the graph. -/
def treeRank (id : NodeId) : Nat :=
  match id.index with
  | 2 | 4 => 1
  | 3 => 2
  | _ => 0

theorem treeGraph_within_limit :
    Small treeGraph 2 ∧
    (∀ limit next, typeAt treeGraph { hoisting := .never } ⟨3⟩ { fallback := "Root", scope := {} }
      (afterCalls treeGraph { hoisting := .never } []) ≠ .error (.recursionLimit limit) next) := by
  have checked : ∀ i < treeGraph.size, (treeGraph.kind ⟨i⟩).isPassage = true →
      ∀ inner ∈ (treeGraph.kind ⟨i⟩).children, treeRank inner < treeRank ⟨i⟩ := by
    decide
  have drops (id inner : NodeId) (leads : treeGraph.Leads id inner) :
      treeRank inner < treeRank id :=
    checked id.index leads.index_lt leads.1 inner leads.2
  have ranked (id : NodeId) : treeRank id ≤ 2 := by
    unfold treeRank
    split <;> omega
  have small : Small treeGraph 2 := {
    founded := Graph.founded_of_rank drops
    longest := fun id _ passage _ => (passage.length_le_rank drops).trans (ranked id)
    bounded := by decide }
  exact ⟨small, (calls_within_limit small _ [] ⟨⟨3⟩, { fallback := "Root", scope := {} }⟩).1⟩

end RouterClient.Typing
