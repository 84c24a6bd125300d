import Mathlib.Data.List.Forall2
import RouterClient.Proofs.Document.Decoding
import RouterClient.Proofs.Document.Laying

/-! # The nodes of definitions

The definitions that have a body take the first positions, in their order, before any body is lowered.
So a reference leads to the node of its definition wherever it stands, and the bodies are filled in
later without touching each other's positions or the schemas in place between them.
-/

namespace RouterClient

namespace Table

variable {κ ν μ : Type} {related : κ → ν → μ → Prop} {table : Table κ ν} {results : Table κ μ}

/-- The entries of two tables have the same keys one by one, and their values are related. -/
def Paired (related : κ → ν → μ → Prop) : Table κ ν → Table κ μ → Prop :=
  List.Forall₂ fun entry result => result.1 = entry.1 ∧ related entry.1 entry.2 result.2

theorem Paired.keys_eq (paired : Paired related table results) : results.keys = table.keys := by
  induction paired with
  | nil => rfl
  | cons first _ ih => exact congrArg₂ List.cons first.1 ih

theorem Paired.map_eq {ρ : Type} {f : μ → ρ} {g : ν → ρ} (paired : Paired related table results)
    (same : ∀ {key value result}, related key value result → f result = g value) :
    results.map (fun entry => (entry.1, f entry.2)) = table.map fun entry => (entry.1, g entry.2) := by
  induction paired with
  | nil => rfl
  | cons first _ ih => exact congrArg₂ List.cons (Prod.ext first.1 (same first.2)) ih

theorem Paired.get? [DecidableEq κ] (paired : Paired related table results) (key : κ) :
    Option.Rel (related key) (table.get? key) (results.get? key) := by
  induction paired with
  | nil => exact .none
  | @cons entry result _ _ first _ ih =>
      obtain ⟨k, value⟩ := entry
      obtain ⟨k', value'⟩ := result
      obtain ⟨rfl, belongs⟩ := first
      by_cases same : k' = key
      · subst same
        simpa [Table.get?] using Option.Rel.some belongs
      · simpa [Table.get?, same] using ih

theorem Paired.found [DecidableEq κ] (paired : Paired related table results) {key : κ} {value : ν}
    (found : table.get? key = some value) :
    ∃ value', results.get? key = some value' ∧ related key value value' := by
  have pair := paired.get? key
  rw [found] at pair
  cases found' : results.get? key with
  | none => simp [found'] at pair
  | some value' =>
      rw [found', Option.rel_some_some] at pair
      exact ⟨value', rfl, pair⟩

end Table

namespace Lowering

open Schema (NodeId Node Graph)

/-- A chain of references that ends at the key of a body. -/
inductive Leads (schemas : Table String Written.Schema) : String → String → Prop where
  | body {key schema} :
      schemas.get? key = some schema → schema.reference = none → Leads schemas key key
  | onward {key schema next target} :
      schemas.get? key = some schema → schema.reference = some next → Leads schemas next target →
      Leads schemas key target

section

variable {schemas : Table String Written.Schema} {key start target other : String}
  {definitions : Table String NodeId}

namespace Leads

theorem unique (leads : Leads schemas key target) (leads' : Leads schemas key other) :
    target = other := by
  induction leads with
  | body found bare =>
      cases leads' with
      | body => rfl
      | onward found' referred =>
          obtain rfl := Option.some.inj (found.symm.trans found')
          simp [bare] at referred
  | onward found referred _ ih =>
      cases leads' with
      | body found' bare =>
          obtain rfl := Option.some.inj (found.symm.trans found')
          simp [bare] at referred
      | onward found' referred' more =>
          obtain rfl := Option.some.inj (found.symm.trans found')
          obtain rfl := Option.some.inj (referred.symm.trans referred')
          exact ih more

theorem stands (leads : Leads schemas key target) : ∃ schema, schemas.get? key = some schema := by
  cases leads with
  | body found _ => exact ⟨_, found⟩
  | onward found _ _ => exact ⟨_, found⟩

/-- A chain ends at itself. -/
theorem ending (leads : Leads schemas key target) : Leads schemas target target := by
  induction leads with
  | body found bare => exact .body found bare
  | onward _ _ _ ih => exact ih

end Leads

theorem follow_ok {steps : Nat} (run : follow schemas start steps key = .ok target) :
    Leads schemas key target := by
  induction steps generalizing key with
  | zero => cases run
  | succ steps ih =>
      rw [follow] at run
      cases found : schemas.get? key with
      | none =>
          rw [found] at run
          cases run
      | some schema =>
          simp only [found] at run
          cases referred : schema.reference with
          | none =>
              rw [referred] at run
              cases run
              exact .body found referred
          | some next =>
              rw [referred] at run
              exact .onward found referred (ih run)

theorem mapM_ok {ε α β : Type} {step : α → Except ε β} {items : List α} {results : List β}
    (run : items.mapM step = .ok results) :
    List.Forall₂ (fun item result => step item = .ok result) items results := by
  induction items generalizing results with
  | nil =>
      cases run
      exact .nil
  | cons item more ih =>
      rw [List.mapM_cons] at run
      obtain ⟨result, first, later⟩ := Json.Decode.bind_ok run
      obtain ⟨others, rest, ended⟩ := Json.Decode.bind_ok later
      cases ended
      exact .cons first (ih rest)

/-- Every definition has the number of the body that it leads to. -/
theorem definitions_ok (run : Lowering.definitions schemas = .ok definitions) :
    Table.Paired (fun key _ id => ∃ target,
      Leads schemas key target ∧ id = ⟨(bodyKeys schemas).idxOf target⟩) schemas definitions := by
  refine (mapM_ok run).imp ?_
  intro entry defined made
  obtain ⟨target, followed, ended⟩ := Json.Decode.bind_ok made
  cases ended
  exact ⟨rfl, target, follow_ok followed, rfl⟩

theorem mem_bodyKeys :
    key ∈ bodyKeys schemas ↔ ∃ schema, (key, schema) ∈ schemas ∧ schema.reference = none := by
  simp [bodyKeys, Table.keys]

theorem nodup_bodyKeys (distinct : schemas.keys.Nodup) : (bodyKeys schemas).Nodup :=
  (List.filter_sublist.map Prod.fst).nodup distinct

theorem Leads.mem_bodyKeys (leads : Leads schemas key target) : target ∈ bodyKeys schemas := by
  induction leads with
  | body found bare => exact Lowering.mem_bodyKeys.mpr ⟨_, Table.mem_of_get? found, bare⟩
  | onward _ _ _ ih => exact ih

end

/-- What the numbers of definitions are. -/
structure Numbers (schemas : Table String Written.Schema) (definitions : Table String NodeId) :
    Prop where
  keys : definitions.keys = schemas.keys
  /-- A key has the number of the body that it leads to. -/
  lead : ∀ key target, Leads schemas key target →
    definitions.get? key = some ⟨(bodyKeys schemas).idxOf target⟩
  /-- Every key leads to a body. -/
  ends : ∀ key ∈ schemas.keys, ∃ target, Leads schemas key target

section

variable {schemas : Table String Written.Schema} {key : String} {definitions : Table String NodeId}

theorem numbers (run : Lowering.definitions schemas = .ok definitions) :
    Numbers schemas definitions := by
  have paired := definitions_ok run
  refine ⟨paired.keys_eq, ?_, ?_⟩
  · intro key target leads
    obtain ⟨schema, stands⟩ := leads.stands
    obtain ⟨id, found, target', leads', rfl⟩ := paired.found stands
    rw [found, leads.unique leads']
  · intro key member
    cases stands : schemas.get? key with
    | none => exact absurd member (Table.get?_eq_none.mp stands)
    | some schema =>
        obtain ⟨_, _, target, leads, _⟩ := paired.found stands
        exact ⟨target, leads⟩

namespace Numbers

/-- The bodies have the first numbers, in order. -/
theorem bodies (numbers : Numbers schemas definitions) (distinct : schemas.keys.Nodup) :
    (bodyKeys schemas).map definitions.get? = (stretch 0 (bodyKeys schemas).length).map some := by
  refine List.ext_getElem (by simp [stretch]) ?_
  intro i inside _
  have within : i < (bodyKeys schemas).length := by simpa using inside
  obtain ⟨schema, member, bare⟩ := mem_bodyKeys.mp (List.getElem_mem within)
  have leads : Leads schemas (bodyKeys schemas)[i] (bodyKeys schemas)[i] :=
    .body (Table.get?_of_mem distinct member) bare
  simp [stretch, numbers.lead _ _ leads, (nodup_bodyKeys distinct).idxOf_getElem]

theorem below (numbers : Numbers schemas definitions) {id : NodeId}
    (found : definitions.get? key = some id) : id.index < (bodyKeys schemas).length := by
  have member : key ∈ schemas.keys := by
    rw [← numbers.keys]
    by_contra absent
    rw [Table.get?_eq_none.mpr absent] at found
    cases found
  obtain ⟨target, leads⟩ := numbers.ends key member
  rw [numbers.lead _ _ leads] at found
  cases found
  exact List.idxOf_lt_length_of_mem leads.mem_bodyKeys

end Numbers

end

/-- Bodies of definitions whose nodes are filled in, with the schemas inside them laid out over the
positions from one to another. -/
inductive Filled (definitions : Table String NodeId) (graph : Graph) :
    Table String Written.Schema → Nat → Nat → Prop where
  | nil {low} : Filled definitions graph [] low low
  | reference {key schema more next low high} :
      schema.reference = some next → Filled definitions graph more low high →
      Filled definitions graph ((key, schema) :: more) low high
  | body {key schema more id children low middle high} :
      schema.reference = none → definitions.get? key = some id →
      Laid definitions graph schema.parts low children middle →
      schema.kindOver? children = some (graph.kind id) → graph.label id = schema.label →
      Filled definitions graph more middle high →
      Filled definitions graph ((key, schema) :: more) low high

namespace Filled

variable {definitions : Table String NodeId} {graph grown : Graph}
  {schemas : Table String Written.Schema} {low high : Nat}

theorem le (filled : Filled definitions graph schemas low high) : low ≤ high := by
  induction filled with
  | nil => exact Nat.le_refl _
  | reference _ _ ih => exact ih
  | body _ _ laid _ _ _ ih => exact laid.le.trans ih

theorem keeps (filled : Filled definitions graph schemas low high) (grows : Extends graph grown)
    (defined : ∀ key id, definitions.get? key = some id → id.index < graph.size)
    (within : high ≤ graph.size) : Filled definitions grown schemas low high := by
  induction filled with
  | nil => exact .nil
  | reference referred _ ih => exact .reference referred (ih within)
  | @body key schema more id children low middle high bare found laid kind label rest ih =>
      have after := rest.le
      have same := grows.node id.index (defined key id found)
      refine .body bare found (laid.congr fun n _ inside => grows.node n (by omega)) ?_ ?_ (ih within)
      · rw [Schema.Graph.kind, same]
        exact kind
      · rw [Schema.Graph.label, same]
        exact label

theorem body_of_mem (filled : Filled definitions graph schemas low high) {key : String}
    {schema : Written.Schema} (member : (key, schema) ∈ schemas) (bare : schema.reference = none) :
    ∃ id children low high, definitions.get? key = some id ∧
      Laid definitions graph schema.parts low children high ∧
      schema.kindOver? children = some (graph.kind id) ∧ graph.label id = schema.label := by
  induction filled with
  | nil => cases member
  | reference referred _ ih =>
      cases member with
      | head => simp [bare] at referred
      | tail _ member => exact ih member
  | body _ found laid kind label _ ih =>
      cases member with
      | head => exact ⟨_, _, _, _, found, laid, kind, label⟩
      | tail _ member => exact ih member

end Filled

/-- What filling bodies in at some positions makes of a graph. -/
structure Fills (definitions : Table String NodeId) (graph : Graph)
    (schemas : Table String Written.Schema) (ids : List NodeId) (grown : Graph) : Prop where
  size : graph.size ≤ grown.size
  /-- Nothing else changes. -/
  node : ∀ n, n < graph.size → ⟨n⟩ ∉ ids → grown.node ⟨n⟩ = graph.node ⟨n⟩
  filled : Filled definitions grown schemas graph.size grown.size

theorem fillBodies_cons (setting : Setting) (key : String) (schema : Written.Schema)
    (more : Table String Written.Schema) :
    fillBodies setting ((key, schema) :: more) =
      (match schema.reference, setting.definitions.get? key with
      | none, some id => body setting [.key "schemas", .key key] schema >>= fun node =>
          modify (·.fill id node)
      | _, _ => pure ()) >>= fun _ => fillBodies setting more :=
  rfl

theorem fillBodies_ok {setting : Setting} {schemas : Table String Written.Schema}
    {ids : List NodeId} {graph grown : Graph}
    (numbered : (bodyKeys schemas).map setting.definitions.get? = ids.map some) (distinct : ids.Nodup)
    (inside : ∀ id ∈ ids, id.index < graph.size)
    (run : fillBodies setting schemas graph = .ok ((), grown)) :
    Fills setting.definitions graph schemas ids grown := by
  induction schemas generalizing ids graph with
  | nil =>
      cases run
      exact ⟨Nat.le_refl _, fun _ _ _ => rfl, .nil⟩
  | cons entry more ih =>
      obtain ⟨key, schema⟩ := entry
      rw [fillBodies_cons] at run
      obtain ⟨_, between, first, rest⟩ := lower_bind_ok run
      cases referred : schema.reference with
      | some next =>
          simp only [referred] at first
          cases first
          have numbered' : (bodyKeys more).map setting.definitions.get? = ids.map some := by
            simpa [bodyKeys, referred] using numbered
          obtain ⟨size, node, filled⟩ := ih numbered' distinct inside rest
          exact ⟨size, node, .reference referred filled⟩
      | none =>
          -- The first position is that of this body, and the others are those of the bodies after it.
          have keys : bodyKeys ((key, schema) :: more) = key :: bodyKeys more := by
            simp [bodyKeys, referred, Table.keys]
          rw [keys, List.map_cons] at numbered
          obtain ⟨id, others, rfl, found, numbered'⟩ := List.map_eq_cons_iff.mp numbered.symm
          obtain ⟨absent, distinct'⟩ := List.nodup_cons.mp distinct
          have here := inside id (List.mem_cons_self ..)
          simp only [referred, ← found] at first
          obtain ⟨node, next, below, filled⟩ := lower_bind_ok first
          cases filled
          have bodies := body_ok setting _ schema below
          obtain ⟨children, lays, kind⟩ := bodies.kind
          have grows := lays.grows.size
          have size := next.size_fill id node
          have inside' : ∀ other ∈ others, other.index < (next.fill id node).size := by
            intro other member
            have := inside other (List.mem_cons_of_mem _ member)
            omega
          obtain ⟨size', node', filled⟩ := ih numbered'.symm distinct' inside' rest
          have untouched : ∀ n, n < next.size → ⟨n⟩ ∉ id :: others →
              grown.node ⟨n⟩ = next.node ⟨n⟩ := by
            intro n within apart
            rw [node' n (by omega) fun member => apart (List.mem_cons_of_mem _ member)]
            refine next.node_fill_of_ne id ⟨n⟩ node ?_
            rintro rfl
            exact apart (List.mem_cons_self ..)
          have stands : grown.node id = node := by
            rw [node' id.index (by omega) absent]
            exact next.node_fill_self id node (by omega)
          refine ⟨by omega, ?_, ?_⟩
          · intro n within apart
            rw [untouched n (by omega) apart, lays.grows.node n within]
          · have later : ∀ n, graph.size ≤ n → n < next.size → grown.node ⟨n⟩ = next.node ⟨n⟩ := by
              intro n above within
              refine untouched n within fun member => ?_
              have := inside _ member
              exact absurd this (Nat.not_lt.mpr above)
            rw [size] at filled
            refine .body referred found.symm (lays.laid.congr later) ?_ ?_ filled
            · rw [Schema.Graph.kind, stands]
              exact kind
            · rw [Schema.Graph.label, stands]
              exact bodies.label

end Lowering

end RouterClient
