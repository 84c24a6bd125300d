import RouterClient.Proofs.Typing.Union
import RouterClient.Proofs.Typing.Wrappers

/-! # Null in a union

The decoder of a union accepts a null for an option that is optional or nullable and for one that is void,
in either case seen through transforms.  An option may come to no value in other ways: a collection of
nothing, an enumeration without a string and a union without alternatives are left out as well, but the
decoder does not accept a null for them.
-/

namespace RouterClient.Code

/-- The line of a decoder that opens the attempt of a null. -/
def nullTest : String :=
  "if container.decodeNil() \x7b"

/-- Two texts differ if only one of them starts like this. -/
theorem ne_of_start {text other : String} (start : List Char) (starts : start <+: text.toList)
    (differs : ¬ start <+: other.toList) : text ≠ other := by
  rintro rfl
  exact differs starts

theorem nullTest_mem_lines (attempt : Attempt) : nullTest ∈ attempt.lines ↔ attempt = .null := by
  cases attempt with
  | null => simp [Attempt.lines, Lines.block, nullTest]
  | decode alternative =>
      have opening (type : String) : nullTest ≠
          "if let value = try? container.decode(" ++ type ++ ".self)" ++ " \x7b" :=
        ne_of_start "if c".toList (by decide) (by simp [String.toList_append])
      have assignment (property : String) : nullTest ≠ "self." ++ property ++ " = value" :=
        ne_of_start "i".toList (by decide) (by simp [String.toList_append])
      simp only [Attempt.lines, Lines.block, List.cons_append, List.mem_cons, opening, assignment,
        false_or, reduceCtorEq, iff_false]
      decide

/-- A decoder tests for a null just where a null is attempted. -/
theorem nullTest_mem_decoderLines (heading : Heading) (attempts : List Attempt) :
    nullTest ∈ decoderLines heading attempts ↔ .null ∈ attempts := by
  have opening : nullTest ≠ heading.declare "init(from decoder: Decoder) throws" ++ " \x7b" := by
    unfold Heading.declare
    cases heading.access <;> decide
  have failing (message : String) : nullTest ≠
      "throw DecodingError.dataCorruptedError(in: container, debugDescription: " ++ message ++ ")" :=
    ne_of_start "i".toList (by decide) (by simp [String.toList_append])
  have rest : nullTest ∉ ["", "let container = try decoder.singleValueContainer()", "\x7d"] := by decide
  simp only [List.mem_cons, List.not_mem_nil, or_false, not_or] at rest
  simp only [decoderLines, Lines.block, List.cons_append, List.mem_cons, List.mem_append,
    List.mem_flatMap, nullTest_mem_lines, opening, failing, rest, List.not_mem_nil, false_or, or_false,
    exists_eq_right]

end RouterClient.Code

namespace RouterClient.Typing

open Model (Scope)
open Schema (Graph Kind NodeId)
open Code (Alternative Attempt Declaration decoderLines nullTest)

/-- Transforms lead from a node to one that is optional or nullable. -/
def MayBeNull (graph : Graph) (id : NodeId) : Prop :=
  ∃ b, graph.TransformsTo id b ∧ (graph.kind b).marks = true

/-- Transforms lead from a node to one that stands for no value at all. -/
def IsVoid (graph : Graph) (id : NodeId) : Prop :=
  ∃ b, graph.TransformsTo id b ∧ graph.kind b = .empty

theorem isAbsent_iff (kind : Kind) : kind.isAbsent = true ↔ kind.marks = true ∨ kind = .empty := by
  cases kind <;> simp [Kind.isAbsent, Kind.marks]

theorem admitsNull_iff {graph : Graph} {id : NodeId} :
    admitsNull graph id = true ↔ MayBeNull graph id ∨ IsVoid graph id := by
  rw [admitsNull_eq]
  constructor
  · intro absent
    have bare : (underTransforms graph graph.size id).transformed? = none := by
      cases kind : underTransforms graph graph.size id <;>
        simp_all [Kind.isAbsent, Kind.transformed?]
    obtain ⟨b, leads, same⟩ := transformsTo_of_bare graph.size bare
    rw [← same, isAbsent_iff] at absent
    exact absent.imp (fun marks => ⟨b, leads, marks⟩) (fun empty => ⟨b, leads, empty⟩)
  · rintro (⟨b, leads, marks⟩ | ⟨b, leads, empty⟩)
    · rw [underTransforms_eq leads, isAbsent_iff]
      exact .inl marks
    · rw [underTransforms_eq leads, isAbsent_iff]
      exact .inr empty

section

variable {graph : Graph}

theorem ended_ending {α : Type} (verdict : Except Failure α) (state : State) :
    ended (ending verdict state) = (verdict, state) := by
  cases verdict <;> rfl

/-- A void node has no type, unless the limit is met in the transforms around it. -/
theorem typeWithin_void {id : NodeId} (void : IsVoid graph id) (settings : Settings) (budget : Nat)
    (site : Site) (state : State) :
    ∃ verdict next, typeWithin graph settings budget id site state = ending verdict next ∧
      (verdict = .ok none ∨ verdict = .error (.recursionLimit maxDepth)) := by
  obtain ⟨b, ⟨path, walk⟩, empty⟩ := void
  -- One step for each transform, and one for the void node at the end.
  induction walk generalizing budget site state with
  | @stop id bare =>
      rcases budget with _ | budget
      · exact ⟨.error (.recursionLimit maxDepth), state, rfl, .inr rfl⟩
      by_cases deep : maxDepth ≤ state.callDepth
      · exact ⟨_, state, typeWithin_limit budget id site deep, .inr rfl⟩
      refine ⟨.ok none, state.enter.leave, ?_, .inl rfl⟩
      rw [typeWithin_inside budget id site (Nat.lt_of_not_le deep)]
      apply deeper_ending
      simp only [typeNode, empty]
      rfl
  | @step id inner b path onward _ ih =>
      rcases budget with _ | budget
      · exact ⟨.error (.recursionLimit maxDepth), state, rfl, .inr rfl⟩
      by_cases deep : maxDepth ≤ state.callDepth
      · exact ⟨_, state, typeWithin_limit budget id site deep, .inr rfl⟩
      have kind : graph.kind id = .transform inner := by
        cases kind : graph.kind id <;> simp_all [Kind.transformed?]
      obtain ⟨verdict, next, run, none_or_limit⟩ := ih budget
        (site.descend site.marked (declaredBy graph id site.declared)) state.enter empty
      refine ⟨verdict, next.leave, ?_, none_or_limit⟩
      rw [typeWithin_inside budget id site (Nat.lt_of_not_le deep)]
      apply deeper_ending
      simp only [typeNode, kind]
      exact run

/-- What holds of every run of a typer holds of the outcomes of some members. -/
theorem forall_outcomesOf {δ : Type} {typer : Typer} {scope : Scope} {P : NodeId → Verdict → Prop}
    (runs : ∀ id site state, P id (ended (typer id site state)).1) (members : List (Member δ))
    (draft : δ) (state : State) :
    ∀ outcome ∈ outcomesOf typer scope members draft state, P outcome.1 outcome.2 := by
  induction members generalizing draft state with
  | nil => nofun
  | cons member more ih =>
      intro outcome listed
      rcases List.mem_cons.mp listed with rfl | listed
      · exact runs _ _ _
      · exact ih _ _ outcome listed

theorem null_mem_iff {outcomes : List (NodeId × Verdict)} {alternatives : List Alternative}
    {attempts : List Attempt} (settled : Alternates graph outcomes alternatives attempts) :
    .null ∈ attempts ↔ ∃ outcome ∈ outcomes, admitsNull graph outcome.1 = true := by
  rw [settled.attempted, null_mem_attemptsWithNull, nullPosition, Option.isSome_map,
    List.findIdx?_isSome, List.any_eq_true]

end

/-- The decoder of a union that is declared tests for a null if and only if some option may be null or is
void.  A void option has no type unless the limit is met.  Where no option may be null, a null is therefore
accepted for the options that have come to no type just if one of them is void whenever there are any. -/
theorem null_attempted_iff (graph : Graph) (settings : Settings) (budget : Nat) (name : String)
    (description : Option String) (options : List NodeId) (scope : Scope) (depth : Nat)
    (state : State) :
    let typer := typeWithin graph settings budget
    let members := options.zipIdx.map (optionMember graph name depth)
    let outcomes := outcomesOf typer scope members {} state
    let nullable := ∃ option ∈ options, MayBeNull graph option
    let void := ∃ option ∈ options, IsVoid graph option
    let untyped := ∃ outcome ∈ outcomes, outcome.2 = .ok none
    outcomes.map Prod.fst = options ∧
    (∀ outcome ∈ outcomes, IsVoid graph outcome.1 →
      outcome.2 = .ok none ∨ outcome.2 = .error (.recursionLimit maxDepth)) ∧
    ∃ result next,
      declareUnion graph settings typer name description options scope depth state =
        .ok result next ∧
      ∀ definition, result = some definition →
        ∃ heading alternatives attempts models,
          definition = .choice heading alternatives attempts models ∧
          decoderLines heading attempts <:+: definition.lines ∧
          (nullTest ∈ decoderLines heading attempts ↔ nullable ∨ void) ∧
          ((nullTest ∈ decoderLines heading attempts ↔ nullable ∨ untyped) ↔
            nullable ∨ (void ↔ untyped)) := by
  intro typer members outcomes nullable void untyped
  obtain ⟨ids, draft, next, run, settled⟩ :=
    declareUnion_gathers graph settings typer name description options scope depth state
  refine ⟨ids, ?_, _, next, run, ?_⟩
  · refine forall_outcomesOf (P := fun id verdict => IsVoid graph id →
      verdict = .ok none ∨ verdict = .error (.recursionLimit maxDepth)) ?_ members {} state
    intro id site state void
    obtain ⟨verdict, next, run, none_or_limit⟩ := typeWithin_void void settings budget site state
    simp only [typer, run, ended_ending]
    exact none_or_limit
  intro definition declared
  obtain ⟨heading, rfl⟩ := UnionDraft.choice_of_toDeclaration? declared
  have accepted : nullTest ∈ decoderLines heading draft.attempts ↔ nullable ∨ void := by
    rw [Code.nullTest_mem_decoderLines, null_mem_iff settled.toAlternates]
    have options_iff : (∃ outcome ∈ outcomes, admitsNull graph outcome.1 = true) ↔
        ∃ option ∈ options, admitsNull graph option = true := by
      rw [← ids]
      simp only [List.mem_map, exists_exists_and_eq_and]
      rfl
    rw [options_iff]
    simp only [admitsNull_iff, nullable, void, and_or_left, exists_or]
  refine ⟨heading, draft.alternatives, draft.attempts, draft.models, rfl, ?_, accepted, ?_⟩
  · exact Code.decoder_infix_choice _ _ _ _
  · rw [accepted]
    by_cases found : nullable <;> simp only [found, true_or, false_or, iff_self]

/-- A union of a string and an array of nothing. -/
def hollowArrayGraph : Graph where
  nodes := #[
    { kind := .primitive .string },
    { kind := .empty },
    { kind := .collection .array ⟨1⟩ },
    { kind := .union [⟨0⟩, ⟨2⟩], label := { name := some "Value" } }]

/-- The array comes to no type, but the decoder does not test for a null. -/
theorem hollow_array_not_accepted :
    let typer := typeHere hollowArrayGraph {}
    let members := [⟨0⟩, ⟨2⟩].zipIdx.map (optionMember hollowArrayGraph "Value" 0)
    (∃ outcome ∈ outcomesOf typer {} members {} {}, outcome.2 = .ok none) ∧
    ∃ heading alternatives attempts models next,
      declare hollowArrayGraph {} typer ⟨3⟩ "Value" none {} 0 {} =
        .ok (some (.choice heading alternatives attempts models)) next ∧
      nullTest ∉ decoderLines heading attempts := by
  refine ⟨⟨(⟨2⟩, .ok none), ?_, rfl⟩, ?_⟩
  · exact .tail _ (.head _)
  · refine ⟨_, _, _, _, _, rfl, ?_⟩
    rw [Code.nullTest_mem_decoderLines]
    decide

end RouterClient.Typing
