import RouterClient.Proofs.Typing.Registry
import RouterClient.Proofs.Code.Identifiers
import RouterClient.Proofs.Code.UnionCodec

/-! # The alternatives of a union

Each option that has a type, and whose model does not clash, becomes an alternative with a property of
its own.  The decoder attempts the alternatives in the order of the options, and a null once where the
first option stands that may be absent.
-/

namespace RouterClient.Typing

open Model (LocalModels Scope)
open Schema (NodeId Graph)
open Code (Alternative Attempt Captured Declaration DecodesFirst RoundTrips)

/-- The name with some underscores after it. -/
def withUnderscores (name : String) (count : Nat) : String :=
  name ++ String.ofList (List.replicate count '_')

theorem withUnderscores_succ (name : String) (count : Nat) :
    withUnderscores (name ++ "_") count = withUnderscores name (count + 1) := by
  apply String.toList_injective
  simp [withUnderscores, String.toList_append, List.replicate_succ]

theorem withUnderscores_injective (name : String) : (withUnderscores name).Injective := by
  intro few many same
  have lengths := congrArg (fun text : String => text.toList.length) same
  simpa [withUnderscores, String.toList_append] using lengths

/-- A name that is taken after all tries has been taken at each of them. -/
theorem underscored_taken (takes : String → Bool) {tries : Nat} {name : String}
    (taken : takes (underscored takes tries name) = true) {count : Nat} (within : count ≤ tries) :
    takes (withUnderscores name count) = true := by
  induction tries generalizing name count with
  | zero =>
      obtain rfl := Nat.le_zero.mp within
      simpa [withUnderscores, underscored] using taken
  | succ tries ih =>
      unfold underscored at taken
      split at taken
      · next first =>
        cases count with
        | zero => simpa [withUnderscores] using first
        | succ count =>
            rw [← withUnderscores_succ]
            exact ih taken (Nat.le_of_succ_le_succ within)
      · next free => exact absurd taken free

theorem underscored_not_mem (names : List String) (name : String) :
    underscored names.contains names.length name ∉ names := by
  intro taken
  obtain ⟨count, within, free⟩ := Code.exists_fresh names (withUnderscores_injective name)
  have found := underscored_taken names.contains (by simpa using taken) within
  exact free (by simpa using found)

theorem UnionDraft.takes_eq (draft : UnionDraft) :
    draft.takes = (draft.alternatives.map Alternative.property).contains := by
  funext name
  simp only [takes, List.contains_eq_any_beq, List.any_map, Function.comp_def, Bool.beq_comm]

/-- A new alternative gets a property that no other alternative has. -/
theorem UnionDraft.propertyFor_not_mem (draft : UnionDraft) (position : Nat)
    (payload : Code.TypeExpr) :
    draft.propertyFor position payload ∉ draft.alternatives.map Alternative.property := by
  have fresh := underscored_not_mem (draft.alternatives.map Alternative.property)
    (((Code.alternativeName? payload.text).filter fun name => !draft.takes name).getD
      ("option" ++ toString position))
  rwa [List.length_map, ← takes_eq] at fresh

/-- The types of some options that are kept, with the models that are nested for them. -/
structure Kept where
  models : LocalModels Declaration := []
  types : List Typed := []

/-- An option is kept if it has a type whose model does not clash with those before it. -/
def Kept.next (kept : Kept) : Verdict → Kept
  | .ok (some typed) =>
    match kept.models.absorb? typed.model with
    | .ok models => { models, types := kept.types ++ [typed] }
    | .error _ => kept
  | _ => kept

/-- What is kept of some options whose typing has come to verdicts. -/
def kept (outcomes : List (NodeId × Verdict)) : Kept :=
  outcomes.foldl (fun kept outcome => kept.next outcome.2) {}

/-- The number of options kept before the first option that may be absent, if there is one. -/
def nullPosition (graph : Graph) (outcomes : List (NodeId × Verdict)) : Option Nat :=
  (outcomes.findIdx? fun outcome => admitsNull graph outcome.1).map fun before =>
    (kept (outcomes.take before)).types.length

/-- The attempts for some alternatives, with a null before the one at a position. -/
def attemptsWithNull (alternatives : List Alternative) : Option Nat → List Attempt
  | none => alternatives.map .decode
  | some position =>
    (alternatives.take position).map .decode ++ .null :: (alternatives.drop position).map .decode

/-- The alternatives and attempts for some options whose typing has come to verdicts: an alternative
with a property of its own for each option that is kept, and an attempt of each in their order, with a
null where the first option stands that may be absent. -/
structure Alternates (graph : Graph) (outcomes : List (NodeId × Verdict))
    (alternatives : List Alternative) (attempts : List Attempt) : Prop where
  distinct : (alternatives.map Alternative.property).Nodup
  payloads : alternatives.map Alternative.payload =
    (kept outcomes).types.map fun typed => typed.type.required
  attempted : attempts = attemptsWithNull alternatives (nullPosition graph outcomes)

section

variable {graph : Graph} {outcomes : List (NodeId × Verdict)} {alternatives : List Alternative}
  {attempts : List Attempt}

theorem Kept.next_prefix (kept : Kept) (verdict : Verdict) : kept.types <+: (kept.next verdict).types := by
  unfold next
  split
  · split
    · exact List.prefix_append _ _
    · exact List.prefix_rfl
  · exact List.prefix_rfl

theorem kept_concat (outcomes : List (NodeId × Verdict)) (outcome : NodeId × Verdict) :
    kept (outcomes ++ [outcome]) = (kept outcomes).next outcome.2 := by
  rw [kept, List.foldl_append]
  rfl

theorem kept_prefix (outcomes more : List (NodeId × Verdict)) :
    (kept outcomes).types <+: (kept (outcomes ++ more)).types := by
  induction more generalizing outcomes with
  | nil => rw [List.append_nil]
  | cons outcome more ih =>
      have rest := ih (outcomes ++ [outcome])
      rw [kept_concat, List.append_assoc, List.singleton_append] at rest
      exact (Kept.next_prefix _ _).trans rest

theorem nullPosition_le {position : Nat} (found : nullPosition graph outcomes = some position) :
    position ≤ (kept outcomes).types.length := by
  obtain ⟨before, _, rfl⟩ := Option.map_eq_some_iff.mp found
  have shorter := kept_prefix (outcomes.take before) (outcomes.drop before)
  rw [List.take_append_drop] at shorter
  exact shorter.length_le

/-- Only the first option that may be absent decides where the null is. -/
theorem nullPosition_concat (graph : Graph) (outcomes : List (NodeId × Verdict))
    (outcome : NodeId × Verdict) :
    nullPosition graph (outcomes ++ [outcome]) =
      (nullPosition graph outcomes).or
        (if admitsNull graph outcome.1 then some (kept outcomes).types.length else none) := by
  unfold nullPosition
  rw [List.findIdx?_append]
  cases seen : outcomes.findIdx? fun outcome => admitsNull graph outcome.1 with
  | some before =>
      have inside := (List.findIdx?_eq_some_iff_findIdx_eq.mp seen).1
      simp [List.take_append_of_le_length (Nat.le_of_lt inside)]
  | none =>
      cases admits : admitsNull graph outcome.1 <;> simp [List.findIdx?_cons, admits]

theorem attemptsWithNull_concat (alternatives : List Alternative) (alternative : Alternative)
    {position : Option Nat} (within : ∀ found, position = some found → found ≤ alternatives.length) :
    attemptsWithNull (alternatives ++ [alternative]) position =
      attemptsWithNull alternatives position ++ [.decode alternative] := by
  cases position with
  | none => simp [attemptsWithNull]
  | some found =>
      have bound := within found rfl
      simp [attemptsWithNull, List.take_append_of_le_length bound,
        List.drop_append_of_le_length bound]

theorem null_mem_attemptsWithNull (alternatives : List Alternative) (position : Option Nat) :
    .null ∈ attemptsWithNull alternatives position ↔ position.isSome := by
  cases position <;> simp [attemptsWithNull]

theorem decode_mem_attemptsWithNull (alternatives : List Alternative) (position : Option Nat)
    (alternative : Alternative) :
    .decode alternative ∈ attemptsWithNull alternatives position ↔ alternative ∈ alternatives := by
  cases position with
  | none => simp [attemptsWithNull]
  | some found =>
      have whole : alternative ∈ alternatives.take found ++ alternatives.drop found ↔
          alternative ∈ alternatives := by
        rw [List.take_append_drop]
      simp only [attemptsWithNull, List.mem_append, List.mem_cons, List.mem_map, reduceCtorEq,
        false_or, Attempt.decode.injEq, exists_eq_right]
      rw [← List.mem_append]
      exact whole

/-- A null comes no later than the option that may be absent. -/
theorem nullPosition_concat_le {outcome : NodeId × Verdict} {position : Nat}
    (found : nullPosition graph (outcomes ++ [outcome]) = some position) :
    position ≤ (kept outcomes).types.length := by
  rw [nullPosition_concat] at found
  cases earlier : nullPosition graph outcomes with
  | some first =>
      rw [earlier] at found
      cases found
      exact nullPosition_le earlier
  | none =>
      rw [earlier, Option.none_or] at found
      split at found
      · cases found
        exact Nat.le_refl _
      · cases found

/-- A draft that has settled some options. -/
structure Gathers (graph : Graph) (outcomes : List (NodeId × Verdict)) (draft : UnionDraft) : Prop
    extends Alternates graph outcomes draft.alternatives draft.attempts where
  models : draft.models = (kept outcomes).models

namespace Gathers

variable {draft : UnionDraft} {id : NodeId} {verdict : Verdict}

theorem empty (graph : Graph) : Gathers graph [] {} where
  distinct := List.nodup_nil
  payloads := rfl
  attempted := rfl
  models := rfl

theorem length_eq (settled : Gathers graph outcomes draft) :
    draft.alternatives.length = (kept outcomes).types.length := by
  simpa using congrArg List.length settled.payloads

/-- An option that may be absent puts a null behind the alternatives so far, unless there is one. -/
theorem announce (settled : Gathers graph outcomes draft) (id : NodeId) (verdict : Verdict) :
    (if admitsNull graph id then draft.attemptNull else draft) =
      { draft with
        attempts := attemptsWithNull draft.alternatives
          (nullPosition graph (outcomes ++ [(id, verdict)])) } := by
  have asked := null_mem_attemptsWithNull draft.alternatives (nullPosition graph outcomes)
  rw [← settled.attempted] at asked
  rw [nullPosition_concat]
  cases position : nullPosition graph outcomes with
  | some found =>
      have known : draft.attempts.contains .null = true := by
        simpa [position] using asked
      rw [Option.some_or, ← position, ← settled.attempted, UnionDraft.attemptNull, if_pos known,
        ite_self]
  | none =>
      have attempted := settled.attempted
      rw [position] at attempted
      rw [Option.none_or]
      split
      · simp [UnionDraft.attemptNull, attemptsWithNull, attempted, ← settled.length_eq]
      · rw [← attempted]

/-- An option with a type and a model that does not clash is kept. -/
theorem keep (settled : Gathers graph outcomes draft) (position : Nat) (id : NodeId) {typed : Typed}
    {models : LocalModels Declaration} (absorbed : draft.models.absorb? typed.model = .ok models) :
    ∃ grown, UnionDraft.addOption position
        { draft with
          attempts := attemptsWithNull draft.alternatives
            (nullPosition graph (outcomes ++ [(id, .ok (some typed))])) } typed = .ok grown ∧
      Gathers graph (outcomes ++ [(id, .ok (some typed))]) grown := by
  simp only [UnionDraft.addOption, absorbed]
  refine ⟨_, rfl, ⟨?_, ?_, ?_⟩, ?_⟩
  · have fresh (attempts : List Attempt) :
        { draft with attempts }.propertyFor position typed.type.required ∉
          draft.alternatives.map Alternative.property :=
      draft.propertyFor_not_mem position typed.type.required
    rw [List.map_append, List.map_singleton]
    exact List.nodup_append.mpr ⟨settled.distinct, List.nodup_singleton _, by simpa using fresh _⟩
  · rw [kept_concat, List.map_append, settled.payloads]
    simp only [Kept.next, ← settled.models, absorbed, List.map_append, List.map_singleton]
  · refine (attemptsWithNull_concat draft.alternatives _ fun found known => ?_).symm
    rw [settled.length_eq]
    exact nullPosition_concat_le known
  · rw [kept_concat]
    simp only [Kept.next, ← settled.models, absorbed]

theorem next (settled : Gathers graph outcomes draft) (name : String) (depth position : Nat)
    (id : NodeId) (verdict : Verdict) :
    Gathers graph (outcomes ++ [(id, verdict)])
      ((optionMember graph name depth (id, position)).settle draft verdict).1 := by
  have announced : (optionMember graph name depth (id, position)).announce draft = _ :=
    settled.announce id verdict
  -- An option that is left out has still announced its null.
  have left (same : (kept outcomes).next verdict = kept outcomes) :
      Gathers graph (outcomes ++ [(id, verdict)])
        ((optionMember graph name depth (id, position)).announce draft) := by
    rw [announced]
    refine ⟨⟨settled.distinct, ?_, rfl⟩, ?_⟩
    · rw [kept_concat, same]
      exact settled.payloads
    · rw [kept_concat, same]
      exact settled.models
  rcases verdict with failure | ⟨_ | typed⟩
  · exact left rfl
  · exact left rfl
  · cases absorbed : draft.models.absorb? typed.model with
    | error failure =>
        have refused : (optionMember graph name depth (id, position)).add
            ((optionMember graph name depth (id, position)).announce draft) typed =
              .error failure := by
          rw [announced]
          simp only [optionMember, UnionDraft.addOption, absorbed]
        simp only [Member.settle, refused]
        apply left
        simp only [Kept.next, ← settled.models, absorbed]
    | ok models =>
        obtain ⟨grown, added, settled⟩ := settled.keep (position + 1) id absorbed
        have accepted : (optionMember graph name depth (id, position)).add
            ((optionMember graph name depth (id, position)).announce draft) typed = .ok grown := by
          rw [announced]
          exact added
        simp only [Member.settle, accepted]
        exact settled

end Gathers

end

/-- The verdict and the state that a step ends with. -/
def ended {α : Type} : EStateM.Result Failure State α → Except Failure α × State
  | .ok result next => (.ok result, next)
  | .error failure next => (.error failure, next)

/-- What the typing of some members comes to, one after the other. -/
def outcomesOf {δ : Type} (typer : Typer) (scope : Scope) :
    List (Member δ) → δ → State → List (NodeId × Verdict)
  | [], _, _ => []
  | member :: more, draft, state =>
    let typed := ended (typer member.id member.site (state.within scope))
    let settled := member.settle draft typed.1
    (member.id, typed.1) :: outcomesOf typer scope more settled.1
      ((typed.2.within state.scope).note member.location settled.2)

theorem outcomesOf_ids {δ : Type} (typer : Typer) (scope : Scope) (members : List (Member δ))
    (draft : δ) (state : State) :
    (outcomesOf typer scope members draft state).map Prod.fst = members.map Member.id := by
  induction members generalizing draft state with
  | nil => rfl
  | cons member more ih => simp only [outcomesOf, List.map_cons, ih]

theorem typeMember_ended {δ : Type} (typer : Typer) (scope : Scope) (draft : δ) (member : Member δ)
    (state : State) :
    let typed := ended (typer member.id member.site (state.within scope))
    typeMember typer scope draft member state = .ok (member.settle draft typed.1).1
      ((typed.2.within state.scope).note member.location (member.settle draft typed.1).2) := by
  apply typeMember_run
  cases typer member.id member.site (state.within scope) <;> rfl

theorem typeOptions_gathers {graph : Graph} (typer : Typer) (scope : Scope) (name : String)
    (depth : Nat) (options : List NodeId) {done : List (NodeId × Verdict)} {draft : UnionDraft}
    (settled : Gathers graph done draft) (state : State) :
    let members := (options.zipIdx done.length).map (optionMember graph name depth)
    ∃ final last, typeMembers typer scope members draft state = .ok final last ∧
      Gathers graph (done ++ outcomesOf typer scope members draft state) final := by
  -- The draft gathers the options that are done, and the next position is their number.
  induction options generalizing done draft state with
  | nil => exact ⟨draft, state, rfl, by simpa [outcomesOf] using settled⟩
  | cons option more ih =>
      let member := optionMember graph name depth (option, done.length)
      let typed := ended (typer member.id member.site (state.within scope))
      have run : typeMember typer scope draft (optionMember graph name depth (option, done.length))
          state = .ok (member.settle draft typed.1).1
            ((typed.2.within state.scope).note member.location (member.settle draft typed.1).2) :=
        typeMember_ended typer scope draft member state
      obtain ⟨final, last, rest, settled⟩ := ih
        (settled.next name depth done.length option typed.1)
        ((typed.2.within state.scope).note member.location (member.settle draft typed.1).2)
      rw [List.length_append, List.length_singleton] at rest settled
      rw [List.append_assoc] at settled
      refine ⟨final, last, ?_, settled⟩
      simp only [typeMembers, List.zipIdx_cons, List.map_cons, List.foldlM_cons, bind, EStateM.bind,
        run]
      exact rest

theorem UnionDraft.choice_of_toDeclaration? {draft : UnionDraft} {settings : Settings} {name : String}
    {description : Option String} {definition : Declaration}
    (declared : draft.toDeclaration? settings name description = some definition) :
    ∃ heading, definition = .choice heading draft.alternatives draft.attempts draft.models := by
  unfold toDeclaration? at declared
  split at declared
  · cases declared
  · cases declared
    exact ⟨_, rfl⟩

/-- A union is declared as its draft says that has gathered the options. -/
theorem declareUnion_gathers (graph : Graph) (settings : Settings) (typer : Typer) (name : String)
    (description : Option String) (options : List NodeId) (scope : Scope) (depth : Nat)
    (state : State) :
    let members := options.zipIdx.map (optionMember graph name depth)
    let outcomes := outcomesOf typer scope members {} state
    outcomes.map Prod.fst = options ∧
    ∃ draft next,
      declareUnion graph settings typer name description options scope depth state =
        .ok (draft.toDeclaration? settings name description) next ∧
      Gathers graph outcomes draft := by
  intro members outcomes
  constructor
  · rw [outcomesOf_ids, List.map_map]
    exact List.zipIdx_map_fst _ _
  obtain ⟨draft, next, run, settled⟩ := typeOptions_gathers typer scope name depth options
    (Gathers.empty graph) state
  rw [List.nil_append] at settled
  have run : typeMembers typer scope members {} state = .ok draft next := run
  refine ⟨draft, next, ?_, settled⟩
  simp only [declareUnion, bind, EStateM.bind]
  rw [run]
  rfl

/-- A union that is declared at all has an alternative for each option that is kept, under distinct
properties and with attempts in order.  Its decoder sets the property of the first attempt that accepts;
its encoder gives the payload back if and only if no property is named like one of the encoder's local
names. -/
theorem declareUnion_codec (graph : Graph) (settings : Settings) (typer : Typer) (name : String)
    (description : Option String) (options : List NodeId) (scope : Scope) (depth : Nat)
    (state : State) :
    let members := options.zipIdx.map (optionMember graph name depth)
    let outcomes := outcomesOf typer scope members {} state
    outcomes.map Prod.fst = options ∧
    ∃ result next,
      declareUnion graph settings typer name description options scope depth state =
        .ok result next ∧
      ∀ definition, result = some definition →
        ∃ heading alternatives attempts models,
          definition = .choice heading alternatives attempts models ∧
          Alternates graph outcomes alternatives attempts ∧
          (Code.unionDecoder attempts).lines heading ++
            (Code.unionEncoder alternatives).lines heading <:+: definition.lines ∧
          DecodesFirst attempts ∧
          (RoundTrips alternatives attempts ↔ ¬ Captured alternatives) := by
  intro members outcomes
  obtain ⟨ids, draft, next, run, settled⟩ :=
    declareUnion_gathers graph settings typer name description options scope depth state
  refine ⟨ids, _, next, run, ?_⟩
  intro definition declared
  obtain ⟨heading, rfl⟩ := UnionDraft.choice_of_toDeclaration? declared
  refine ⟨heading, draft.alternatives, draft.attempts, draft.models, rfl, settled.toAlternates,
    Code.codec_infix_choice _ _ _ _, Code.decodesFirst _, ?_⟩
  have attempted (alternative : Alternative) :
      .decode alternative ∈ draft.attempts ↔ alternative ∈ draft.alternatives := by
    rw [settled.attempted]
    exact decode_mem_attemptsWithNull _ _ alternative
  exact Code.roundTrips_iff settled.distinct attempted

/-- A union of a string and an object that is called `Container`. -/
def containerGraph : Graph where
  nodes := #[
    { kind := .primitive .string },
    { kind := .object [("id", ⟨0⟩)], label := { name := some "Container" } },
    { kind := .union [⟨0⟩, ⟨1⟩], label := { name := some "Value" } }]

/-- Whether a union has an alternative and attempts it. -/
def attempts (alternative : Alternative) : Declaration → Bool
  | .choice _ alternatives attempts _ =>
    alternatives.contains alternative && attempts.contains (.decode alternative)
  | _ => false

/-- The encoder tests the container that it has just made instead of the property for the object. -/
theorem container_not_encoded :
    let call : Call := ⟨⟨2⟩, { fallback := "Root", scope := {} }⟩
    ∃ entry ∈ (afterCalls containerGraph {} [call]).globals.models,
      ∃ heading alternatives attempts models,
        entry.2.definition = .choice heading alternatives attempts models ∧
        ¬ RoundTrips alternatives attempts := by
  intro call
  have found : (afterCalls containerGraph {} [call]).globals.models.any (fun entry =>
      attempts ⟨"container", .model ⟨1⟩ "Container" .global⟩ entry.2.definition) = true := by
    decide +kernel
  obtain ⟨entry, listed, attempted⟩ := List.any_eq_true.mp found
  refine ⟨entry, listed, ?_⟩
  cases definition : entry.2.definition with
  | choice heading alternatives made models =>
      simp only [definition, attempts, Bool.and_eq_true, List.contains_iff_mem] at attempted
      refine ⟨heading, alternatives, made, models, rfl, ?_⟩
      exact Code.not_roundTrips_of_captured attempted.2 ⟨_, attempted.1, .inr rfl⟩
  | record | enumeration => simp [definition, attempts] at attempted

end RouterClient.Typing
