import Mathlib.Data.List.Perm.Subperm
import Mathlib.Logic.Relation
import RouterClient.Proofs.Document.Definitions

/-! # Where chains of references end

A key whose definition is a reference leads on to another key.  There are finitely many definitions, so a
chain of keys comes to a body, leaves the table, or comes back to a key that it has passed; and it is one
of the three only.  Following a chain in as many steps as there are definitions tells which.
-/

namespace RouterClient.Lowering

open Relation (TransGen)

/-- The definition of a key is a reference to the next one. -/
def Refers (schemas : Table String Written.Schema) (key next : String) : Prop :=
  ∃ schema, schemas.get? key = some schema ∧ schema.reference = some next

/-- How a chain of references ends. -/
inductive Ending where
  /-- The definition of a key has a body. -/
  | body (target : String)
  /-- A key has no definition. -/
  | missing (absent : String)
  /-- The chain goes round and round. -/
  | loop
  deriving DecidableEq, Repr

/-- What following a chain from a key answers. -/
def Ending.answer (start : String) : Ending → Except Failure String
  | .body target => .ok target
  | .missing absent => .error (.unknownReference absent)
  | .loop => .error (.aliasCycle start)

/-- The chain of references from a key ends in some way. -/
inductive Ends (schemas : Table String Written.Schema) : String → Ending → Prop where
  | body {key schema} :
      schemas.get? key = some schema → schema.reference = none → Ends schemas key (.body key)
  | missing {key} : schemas.get? key = none → Ends schemas key (.missing key)
  | loop {key} : TransGen (Refers schemas) key key → Ends schemas key .loop
  | onward {key next ending} :
      Refers schemas key next → Ends schemas next ending → Ends schemas key ending

variable {schemas : Table String Written.Schema} {key next other start target : String}
  {ending another : Ending}

namespace Refers

theorem unique (refers : Refers schemas key next) (refers' : Refers schemas key other) :
    next = other := by
  obtain ⟨schema, found, referred⟩ := refers
  obtain ⟨schema', found', referred'⟩ := refers'
  obtain rfl := Option.some.inj (found.symm.trans found')
  exact Option.some.inj (referred.symm.trans referred')

theorem not_of_body {schema : Written.Schema} (found : schemas.get? key = some schema)
    (bare : schema.reference = none) : ¬ Refers schemas key next := by
  rintro ⟨schema', found', referred⟩
  obtain rfl := Option.some.inj (found.symm.trans found')
  simp [bare] at referred

theorem not_of_missing (absent : schemas.get? key = none) : ¬ Refers schemas key next := by
  rintro ⟨schema, found, _⟩
  simp [absent] at found

theorem mem_keys (refers : Refers schemas key next) : key ∈ schemas.keys := by
  by_contra absent
  exact not_of_missing (Table.get?_eq_none.mpr absent) refers

/-- A key that comes back to itself refers to a key that does. -/
theorem of_loop (loop : TransGen (Refers schemas) key key) :
    ∃ next, Refers schemas key next ∧ TransGen (Refers schemas) next next := by
  obtain ⟨next, refers, back⟩ := Relation.TransGen.head'_iff.mp loop
  exact ⟨next, refers, Relation.TransGen.tail' back refers⟩

end Refers

namespace Ends

theorem of_loop (ends : Ends schemas key ending) (loop : TransGen (Refers schemas) key key) :
    ending = .loop := by
  induction ends with
  | body found bare =>
      obtain ⟨next, refers, _⟩ := Refers.of_loop loop
      exact absurd refers (Refers.not_of_body found bare)
  | missing absent =>
      obtain ⟨next, refers, _⟩ := Refers.of_loop loop
      exact absurd refers (Refers.not_of_missing absent)
  | loop => rfl
  | onward refers _ ih =>
      obtain ⟨next, refers', loop'⟩ := Refers.of_loop loop
      obtain rfl := refers.unique refers'
      exact ih loop'

/-- A chain ends in one way only. -/
theorem unique (ends : Ends schemas key ending) (ends' : Ends schemas key another) :
    ending = another := by
  induction ends with
  | body found bare =>
      cases ends' with
      | body => rfl
      | missing absent => simp [absent] at found
      | loop loop => exact of_loop (.body found bare) loop
      | onward refers _ => exact absurd refers (Refers.not_of_body found bare)
  | missing absent =>
      cases ends' with
      | body found => simp [absent] at found
      | missing => rfl
      | loop loop => exact of_loop (.missing absent) loop
      | onward refers _ => exact absurd refers (Refers.not_of_missing absent)
  | loop loop => exact (of_loop ends' loop).symm
  | onward refers rest ih =>
      cases ends' with
      | body found bare => exact absurd refers (Refers.not_of_body found bare)
      | missing absent => exact absurd refers (Refers.not_of_missing absent)
      | loop loop => exact of_loop (.onward refers rest) loop
      | onward refers' rest' =>
          obtain rfl := refers.unique refers'
          exact ih rest'

end Ends

theorem ends_body_iff : Ends schemas key (.body target) ↔ Leads schemas key target := by
  constructor
  · intro ends
    generalize same : Ending.body target = ending at ends
    induction ends with
    | body found bare =>
        cases same
        exact .body found bare
    | missing | loop => cases same
    | onward refers _ ih =>
        obtain ⟨schema, found, referred⟩ := refers
        exact .onward found referred (ih same)
  · intro leads
    induction leads with
    | body found bare => exact .body found bare
    | onward found referred _ ih => exact .onward ⟨_, found, referred⟩ ih

theorem follow_loop (loop : TransGen (Refers schemas) key key) (steps : Nat) :
    follow schemas start steps key = .error (.aliasCycle start) := by
  induction steps generalizing key with
  | zero => rfl
  | succ steps ih =>
      obtain ⟨next, ⟨schema, found, referred⟩, loop'⟩ := Refers.of_loop loop
      simp only [follow, found, referred, ih loop']

/-- A chain that has passed some keys of the table, and has as many steps left as there are keys that it
has not passed and one more, is followed to its end. -/
theorem follow_ends (steps : Nat) (passed : List String) (distinct : passed.Nodup)
    (within : passed ⊆ schemas.keys) (enough : schemas.length < steps + passed.length)
    (chain : ∀ earlier ∈ passed, TransGen (Refers schemas) earlier key) :
    ∃ ending, Ends schemas key ending ∧ follow schemas start steps key = ending.answer start := by
  induction steps generalizing passed key with
  | zero =>
      have most := (List.subperm_of_subset distinct within).length_le
      simp only [Table.keys, List.length_map] at most
      omega
  | succ steps ih =>
      by_cases back : key ∈ passed
      · exact ⟨.loop, .loop (chain key back), follow_loop (chain key back) _⟩
      · cases found : schemas.get? key with
        | none => exact ⟨.missing key, .missing found, by simp only [follow, found, Ending.answer]⟩
        | some schema =>
            cases referred : schema.reference with
            | none =>
                refine ⟨.body key, .body found referred, ?_⟩
                simp only [follow, found, referred, Ending.answer]
            | some next =>
                have refers : Refers schemas key next := ⟨schema, found, referred⟩
                have chain' : ∀ earlier ∈ key :: passed, TransGen (Refers schemas) earlier next := by
                  intro earlier member
                  cases member with
                  | head => exact .single refers
                  | tail _ member => exact (chain earlier member).tail refers
                have enough' : schemas.length < steps + (key :: passed).length := by
                  simp only [List.length_cons]
                  omega
                obtain ⟨ending, ends, answered⟩ := ih (key :: passed)
                  (List.nodup_cons.mpr ⟨back, distinct⟩)
                  (List.cons_subset.mpr ⟨refers.mem_keys, within⟩) enough' chain'
                refine ⟨ending, .onward refers ends, ?_⟩
                simpa only [follow, found, referred] using answered

/-- As many steps as there are definitions, and one more, tell how a chain ends. -/
theorem exists_ending (schemas : Table String Written.Schema) (start key : String) :
    ∃ ending, Ends schemas key ending ∧
      follow schemas start (schemas.length + 1) key = ending.answer start :=
  follow_ends (schemas.length + 1) [] List.nodup_nil (by simp) (by simp) (by simp)

/-- Every chain of references ends, in one way. -/
theorem existsUnique_ends (schemas : Table String Written.Schema) (key : String) :
    ∃! ending, Ends schemas key ending := by
  obtain ⟨ending, ends, _⟩ := exists_ending schemas key key
  exact ⟨ending, ends, fun another ends' => ends'.unique ends⟩

theorem follow_eq (ends : Ends schemas key ending) :
    follow schemas start (schemas.length + 1) key = ending.answer start := by
  obtain ⟨ending', ends', answered⟩ := exists_ending schemas start key
  rw [answered, ends.unique ends']

section

variable {ε α β : Type} {step : α → Except ε β} {items more : List α} {item : α} {failure : ε}

theorem mapM_ok_of_forall (each : ∀ item ∈ items, ∃ result, step item = .ok result) :
    ∃ results, items.mapM step = .ok results := by
  induction items with
  | nil => exact ⟨[], rfl⟩
  | cons item more ih =>
      obtain ⟨result, made⟩ := each item (List.mem_cons_self ..)
      obtain ⟨results, rest⟩ := ih fun item member => each item (List.mem_cons_of_mem _ member)
      exact ⟨result :: results, by rw [List.mapM_cons, made, rest]; rfl⟩

/-- The first step that fails is the answer. -/
theorem mapM_error (each : ∀ item ∈ items, ∃ result, step item = .ok result)
    (failed : step item = .error failure) : (items ++ item :: more).mapM step = .error failure := by
  obtain ⟨results, made⟩ := mapM_ok_of_forall each
  rw [List.mapM_append, made, List.mapM_cons, failed]
  rfl

end

/-- The node of a definition, as `definitions` makes it. -/
theorem definition_ok (leads : Leads schemas key target) :
    (follow schemas key (schemas.length + 1) key >>= fun target =>
      (pure (key, ⟨(bodyKeys schemas).idxOf target⟩) : Except Failure (String × Schema.NodeId))) =
      .ok (key, ⟨(bodyKeys schemas).idxOf target⟩) := by
  rw [follow_eq (ends_body_iff.mpr leads)]
  rfl

/-- The definitions have nodes when each of them leads to a body. -/
theorem definitions_ok_iff : (∃ definitions, Lowering.definitions schemas = .ok definitions) ↔
    ∀ key ∈ schemas.keys, ∃ target, Leads schemas key target := by
  constructor
  · rintro ⟨definitions, run⟩
    exact (numbers run).ends
  · intro grounded
    apply mapM_ok_of_forall
    intro entry member
    obtain ⟨target, leads⟩ := grounded entry.1 (List.mem_map_of_mem member)
    exact ⟨_, definition_ok leads⟩

/-- The first definition that leads to no body answers for all of them. -/
theorem definitions_error {before after : Table String Written.Schema} {schema : Written.Schema}
    {failure : Failure} (stands : schemas = before ++ (key, schema) :: after)
    (grounded : ∀ earlier ∈ before.keys, ∃ target, Leads schemas earlier target)
    (ends : Ends schemas key ending) (answered : ending.answer key = .error failure) :
    Lowering.definitions schemas = .error failure := by
  have listed : Lowering.definitions schemas =
      (before ++ (key, schema) :: after).mapM fun entry =>
        follow schemas entry.1 (schemas.length + 1) entry.1 >>= fun target =>
          pure (entry.1, ⟨(bodyKeys schemas).idxOf target⟩) := by
    rw [← stands]
    rfl
  rw [listed]
  apply mapM_error
  · intro entry member
    obtain ⟨target, leads⟩ := grounded entry.1 (List.mem_map_of_mem member)
    exact ⟨_, definition_ok leads⟩
  · rw [follow_eq ends, answered]
    rfl

end RouterClient.Lowering
