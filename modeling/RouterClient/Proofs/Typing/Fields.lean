import RouterClient.Proofs.Code.Fields
import RouterClient.Proofs.Typing.Containment
import RouterClient.Proofs.Typing.Determined
import RouterClient.Proofs.Typing.QuestionMarks

/-! # The fields of a struct

Each field of an object is retained in the struct, omitted because it stands for no value, or dropped and
reported.  So the properties of the struct are the fields that have been retained, in their order, and the
reports name the fields that have been dropped.
-/

namespace RouterClient.Typing

open Model (LocalModels Scope)
open Schema (NodeId Graph)
open Code (Declaration Heading Property TypeExpr Writes memberName memberName_nameChars typeName)

/-- What becomes of a field. -/
inductive FieldFate where
  | retained (property : Property)
  | omitted
  | dropped (failure : Failure)

namespace FieldFate

def property? : FieldFate → Option Property
  | retained property => some property
  | omitted | dropped _ => none

def failure? : FieldFate → Option Failure
  | dropped failure => some failure
  | retained _ | omitted => none

end FieldFate

/-- The properties of a struct under way are named after their keys. -/
def RecordDraft.Named (draft : RecordDraft) : Prop :=
  ∀ property ∈ draft.properties, property.name = memberName property.key

/-- What becomes of a field whose typing comes to a verdict, after fields that have left a draft, and the
draft after it. -/
inductive SettlesField (graph : Graph) (settings : Settings) (field : String × NodeId)
    (draft : RecordDraft) : Verdict → FieldFate → RecordDraft → Prop where
  | retained {typed models} :
      memberName field.1 ∉ draft.properties.map Property.name →
      draft.models.absorb? typed.model = .ok models →
      SettlesField graph settings field draft (.ok (some typed))
        (.retained (fieldProperty graph settings field typed.type))
        ⟨draft.properties ++ [fieldProperty graph settings field typed.type], models⟩
  | omitted : SettlesField graph settings field draft (.ok none) .omitted draft
  | failed {failure} : SettlesField graph settings field draft (.error failure) (.dropped failure) draft
  | namesake {typed} :
      memberName field.1 ∈ draft.properties.map Property.name →
      SettlesField graph settings field draft (.ok (some typed))
        (.dropped (.nameCollision (memberName field.1))) draft
  | clashing {typed failure} :
      memberName field.1 ∉ draft.properties.map Property.name →
      draft.models.absorb? typed.model = .error failure →
      SettlesField graph settings field draft (.ok (some typed)) (.dropped failure) draft

/-- What a struct has to say of a field. -/
@[ext]
structure FieldAccount where
  key : String
  verdict : Verdict
  /-- What is reported while the field is typed. -/
  inside : List Diagnostic
  fate : FieldFate

/-- Where the struct reports a field that it drops. -/
def FieldAccount.location (name : String) (account : FieldAccount) : String :=
  name ++ "." ++ account.key

/-- What is reported for a field of the struct called `name`: what its typing reports, and the failure
that the field is dropped for. -/
def FieldAccount.reports (name : String) (account : FieldAccount) : List Diagnostic :=
  account.inside ++
    (account.fate.failure?.map fun failure => ⟨account.location name, failure⟩).toList

/-- The fields of a struct are typed one after the other, each on a copy of the scope, and each is
settled before the next one is typed. -/
inductive SettlesFields (graph : Graph) (settings : Settings) (typer : Typer) (name : String) (depth : Nat)
    (scope : Scope) :
    List (String × NodeId) → RecordDraft → State → List FieldAccount → RecordDraft → State →
      Prop where
  | nil {draft state} : SettlesFields graph settings typer name depth scope [] draft state [] draft state
  | cons {field more draft state account typed grown accounts final last} :
      account.key = field.1 →
      typer field.2 (.member depth false (typeName field.1)) (state.within scope) =
        ending account.verdict typed →
      typed.diagnostics = state.diagnostics ++ account.inside →
      SettlesField graph settings field draft account.verdict account.fate grown →
      SettlesFields graph settings typer name depth scope more grown
        ((typed.within state.scope).note (account.location name) account.fate.failure?)
        accounts final last →
      SettlesFields graph settings typer name depth scope (field :: more) draft state
        (account :: accounts) final last

section

variable {graph : Graph} {settings : Settings} {typer : Typer} {name : String} {depth : Nat}
  {scope : Scope} {fields : List (String × NodeId)} {field : String × NodeId}
  {draft grown final : RecordDraft} {state last : State} {accounts : List FieldAccount}
  {verdict : Verdict} {fate : FieldFate}

/-- A field has one fate. -/
theorem SettlesField.unique {other : FieldFate} {left : RecordDraft}
    (settles : SettlesField graph settings field draft verdict fate grown)
    (again : SettlesField graph settings field draft verdict other left) : fate = other ∧ grown = left := by
  cases settles <;> cases again <;> simp_all

theorem SettlesField.properties (settles : SettlesField graph settings field draft verdict fate grown) :
    grown.properties = draft.properties ++ fate.property?.toList := by
  cases settles <;> simp [FieldFate.property?]

theorem SettlesField.named (settles : SettlesField graph settings field draft verdict fate grown)
    (named : draft.Named) : grown.Named := by
  cases settles with
  | retained => exact List.forall_mem_append.mpr ⟨named, List.forall_mem_singleton.mpr rfl⟩
  | _ => exact named

/-- Every field is settled, with the failure that is reported. -/
theorem fieldMember_settles (graph : Graph) (settings : Settings) (name : String) (depth : Nat)
    (field : String × NodeId) (draft : RecordDraft) (verdict : Verdict) :
    ∃ fate, SettlesField graph settings field draft verdict fate
        ((fieldMember graph settings name depth field).settle draft verdict).1 ∧
      fate.failure? = ((fieldMember graph settings name depth field).settle draft verdict).2 := by
  rcases verdict with failure | ⟨_ | typed⟩
  · exact ⟨_, .failed, rfl⟩
  · exact ⟨_, .omitted, rfl⟩
  · have taken : draft.properties.any (·.name == memberName field.1) = true ↔
        memberName field.1 ∈ draft.properties.map Property.name := by
      simp
    simp only [fieldMember, Member.settle, RecordDraft.addField, fieldProperty, id_eq, taken]
    split
    · next refused =>
      split at refused
      · next clash =>
        cases refused
        exact ⟨_, .namesake clash, rfl⟩
      · next free =>
        split at refused
        · next refusal =>
          cases refused
          exact ⟨_, .clashing free refusal, rfl⟩
        · cases refused
    · next added =>
      split at added
      · cases added
      · next free =>
        split at added
        · cases added
        · next absorbed =>
          cases added
          exact ⟨_, .retained free absorbed, rfl⟩

/-- The typing of the fields of a struct gives an account of each. -/
theorem Members.accounted {budget : Nat} {events : List Event}
    (runs : Members (Derives graph settings budget) scope
      (fields.map (fieldMember graph settings name depth)) draft state events final last) :
    ∃ accounts, SettlesFields graph settings (typeWithin graph settings budget) name depth scope fields
      draft state accounts final last := by
  induction fields generalizing draft state events with
  | nil =>
      cases runs
      exact ⟨[], .nil⟩
  | cons field more ih =>
      rw [List.map_cons] at runs
      cases runs with
      | @cons _ _ _ _ _ verdict typed _ _ _ derived rest =>
          obtain ⟨inside, reported⟩ := derived.diagnostics_prefix
          obtain ⟨fate, settles, same⟩ :=
            fieldMember_settles graph settings name depth field draft verdict
          rw [← same] at rest
          obtain ⟨accounts, rest⟩ := ih rest
          exact ⟨⟨field.1, verdict, inside, fate⟩ :: accounts,
            .cons rfl (typeWithin_obeys graph settings budget derived) reported.symm settles rest⟩

namespace SettlesFields

theorem keys (accounted : SettlesFields graph settings typer name depth scope fields draft state accounts
    final last) : accounts.map FieldAccount.key = fields.map Prod.fst := by
  induction accounted with
  | nil => rfl
  | cons key _ _ _ _ ih => rw [List.map_cons, List.map_cons, key, ih]

theorem properties (accounted : SettlesFields graph settings typer name depth scope fields draft state
    accounts final last) :
    final.properties =
      draft.properties ++ accounts.filterMap fun account => account.fate.property? := by
  induction accounted with
  | nil => simp
  | @cons _ _ _ _ account _ _ _ _ _ _ _ _ settles _ ih =>
      rw [ih, settles.properties, List.append_assoc]
      cases fate : account.fate.property? <;> simp [fate]

theorem diagnostics (accounted : SettlesFields graph settings typer name depth scope fields draft state
    accounts final last) :
    last.diagnostics = state.diagnostics ++ accounts.flatMap (FieldAccount.reports name) := by
  induction accounted with
  | nil => simp
  | @cons _ _ _ state account typed _ _ _ _ _ _ reported _ _ ih =>
      have noted : ((typed.within state.scope).note (account.location name)
          account.fate.failure?).diagnostics = state.diagnostics ++ account.reports name := by
        have within : (typed.within state.scope).diagnostics = typed.diagnostics := rfl
        cases failure : account.fate.failure? <;>
          simp [State.note, FieldAccount.reports, failure, within, reported]
      rw [ih, noted, List.flatMap_cons, List.append_assoc]

/-- There is one account of the fields. -/
theorem unique {others : List FieldAccount} {left : RecordDraft} {next : State}
    (accounted : SettlesFields graph settings typer name depth scope fields draft state accounts final last)
    (again : SettlesFields graph settings typer name depth scope fields draft state others left next) :
    accounts = others ∧ final = left ∧ last = next := by
  induction accounted generalizing others with
  | nil =>
      cases again
      exact ⟨rfl, rfl, rfl⟩
  | @cons _ _ _ _ account _ _ _ _ _ key run reported settles _ ih =>
      cases again with
      | @cons _ _ _ _ other _ _ _ _ _ key' run' reported' settles' rest =>
          obtain ⟨verdict, rfl⟩ := ending_inj (run.symm.trans run')
          have inside : account.inside = other.inside :=
            List.append_cancel_left (reported.symm.trans reported')
          rw [← verdict] at settles'
          obtain ⟨fate, rfl⟩ := settles.unique settles'
          obtain rfl : account = other :=
            FieldAccount.ext (key.trans key'.symm) verdict inside fate
          obtain ⟨rfl, left, next⟩ := ih rest
          exact ⟨rfl, left, next⟩

theorem named (accounted : SettlesFields graph settings typer name depth scope fields draft state accounts
    final last) (before : draft.Named) : final.Named := by
  induction accounted with
  | nil => exact before
  | cons _ _ _ settles _ ih => exact ih (settles.named before)

end SettlesFields

end

/-- A string, a node without a value and a string that may be absent. -/
def fieldGraph : Graph where
  nodes := #[{ kind := .primitive .string }, { kind := .empty }, { kind := .optional ⟨0⟩ }]

/-- Two fields are retained, one is omitted and one has the name of a field before it. -/
example :
    (match declareRecord fieldGraph {} (typeHere fieldGraph {}) "Root" none
        [("user-name", ⟨0⟩), ("gone", ⟨1⟩), ("userName", ⟨0⟩), ("class", ⟨2⟩)] {} 0 {} with
      | .ok definition next => (definition.propertyNames, next.diagnostics.map Diagnostic.location)
      | .error _ _ => ([], [])) = (["userName", "_class"], ["Root.userName"]) := by
  decide +kernel

end RouterClient.Typing
