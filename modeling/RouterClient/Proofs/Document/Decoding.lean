import RouterClient.Document.Written

/-! # Decoded documents

What is true of a structure before its fields are decoded, and stays true with every field, is true of
the decoded structure, however it was written.  Tables are read with `Table.insert`, so none of them has
a key twice, and neither has a decoded document.
-/

namespace RouterClient

namespace Json.Decode

theorem bind_ok {ε α β : Type} {step : Except ε α} {more : α → Except ε β} {result : β}
    (run : (step >>= more) = .ok result) :
    ∃ between, step = .ok between ∧ more between = .ok result := by
  cases step with
  | error failure => cases run
  | ok between => exact ⟨between, rfl, run⟩

theorem map_ok {ε α β : Type} {step : Except ε α} {f : α → β} {result : β}
    (run : (f <$> step) = .ok result) : ∃ between, step = .ok between ∧ f between = result := by
  cases step with
  | error failure => cases run
  | ok between =>
      cases run
      exact ⟨between, rfl, rfl⟩

theorem under_ok {α : Type} {step : Step} {decoded : Decoded α} {result : α}
    (run : under step decoded = .ok result) : decoded = .ok result := by
  cases decoded with
  | error mistake => cases run
  | ok value =>
      cases run
      rfl

theorem mismatch_ne_ok {α : Type} (expected : String) (tree : Tree) (result : α) :
    mismatch expected tree ≠ .ok result := by
  cases tree with
  | number found => cases found <;> nofun
  | string found => cases found <;> nofun
  | null | bool | array | object | absent | brokenString | broken => nofun

/-- A table with every key once, whose values all have a property. -/
structure Tabulates {α : Type} (holds : α → Prop) (table : Table String α) : Prop where
  distinct : table.keys.Nodup
  values : ∀ key value, table.get? key = some value → holds value

section

variable {α : Type} {holds : α → Prop}

theorem entries_ok {decode : Tree → Decoded α} {members : List (Except Fault String × Tree)}
    {start found : Table String α} (each : ∀ tree value, decode tree = .ok value → holds value)
    (run : entries decode start members = .ok found) (tabulates : Tabulates holds start) :
    Tabulates holds found := by
  induction members generalizing start with
  | nil =>
      cases run
      exact tabulates
  | cons member more ih =>
      obtain ⟨name, tree⟩ := member
      obtain ⟨key, _, later⟩ := bind_ok run
      obtain ⟨value, decoded, rest⟩ := bind_ok later
      refine ih rest ⟨Table.nodup_keys_insert key value tabulates.distinct, ?_⟩
      intro other found stands
      rw [Table.get?_insert] at stands
      split at stands
      · cases stands
        exact each tree value (under_ok decoded)
      · exact tabulates.values other found stands

theorem table_ok (holds : α → Prop) {decode : Nat → Tree → Decoded α} {levels : Nat} {tree : Tree}
    {found : Table String α} (each : ∀ levels tree value, decode levels tree = .ok value → holds value)
    (run : table levels decode tree = .ok found) : Tabulates holds found := by
  unfold table at run
  split at run
  next members ending =>
    obtain ⟨left, _, later⟩ := bind_ok run
    obtain ⟨entries, read, last⟩ := bind_ok later
    obtain ⟨_, _, ended⟩ := bind_ok last
    cases ended
    exact entries_ok (each left) read ⟨List.nodup_nil, by simp⟩
  next => exact absurd run (mismatch_ne_ok _ _ _)

end

section

variable {σ : Type} {holds : σ → Prop} {fields : List (FieldRule σ)} {form : Form} {levels : Nat}
  {start found : σ}

/-- What no field changes. -/
def Keeps (holds : σ → Prop) (fields : List (FieldRule σ)) : Prop :=
  ∀ field ∈ fields, ∀ levels tree before after, holds before →
    field.decode levels tree before = .ok after → holds after

theorem fieldOf?_ok {seen : List String} {name : String} {field : FieldRule σ}
    (run : fieldOf? fields seen name = .ok (some field)) : field ∈ fields := by
  rw [fieldOf?] at run
  cases named : fields.find? (·.name == name) with
  | none =>
      rw [named] at run
      cases run
  | some other =>
      simp only [named] at run
      split at run
      · cases run
      · cases run
        exact List.mem_of_find?_eq_some named

theorem members_ok {seen names : List String} {members : List (Except Fault String × Tree)}
    (keeps : Keeps holds fields)
    (run : Decode.members fields levels seen start members = .ok (names, found)) (first : holds start) :
    holds found := by
  induction members generalizing seen start with
  | nil =>
      cases run
      exact first
  | cons member more ih =>
      obtain ⟨name, tree⟩ := member
      obtain ⟨key, _, later⟩ := bind_ok run
      obtain ⟨field?, named, rest⟩ := bind_ok later
      cases field? with
      | none =>
          cases loose : tree.looseFault? with
          | some fault =>
              simp only [loose] at rest
              cases rest
          | none =>
              simp only [loose] at rest
              exact ih rest first
      | some field =>
          obtain ⟨next, decoded, others⟩ := bind_ok rest
          exact ih others (keeps field (fieldOf?_ok named) _ _ _ _ first (under_ok decoded))

theorem elements_ok {whole : String} {count i : Nat} {ending : ListEnding} {trees : List Tree}
    (keeps : Keeps holds fields)
    (run : elements form whole count levels i ending start fields trees = .ok found)
    (first : holds start) : holds found := by
  induction fields generalizing i start trees with
  | nil =>
      obtain ⟨_, _, ended⟩ := bind_ok run
      cases ended
      exact first
  | cons field more ih =>
      have later : Keeps holds more := fun other member => keeps other (List.mem_cons_of_mem _ member)
      cases trees with
      | nil =>
          obtain ⟨_, _, rest⟩ := bind_ok run
          split at rest
          · exact ih later rest first
          · cases rest
      | cons tree trees =>
          obtain ⟨next, decoded, rest⟩ := bind_ok run
          exact ih later rest (keeps field (List.mem_cons_self ..) _ _ _ _ first (under_ok decoded))

/-- What no field changes is true of the structure. -/
theorem record_ok (holds : σ → Prop) {name : String} {tree : Tree} (keeps : Keeps holds fields)
    (run : record name fields start form levels tree = .ok found) (first : holds start) :
    holds found := by
  unfold record at run
  split at run
  next written ending =>
    obtain ⟨left, _, later⟩ := bind_ok run
    obtain ⟨⟨seen, last⟩, read, rest⟩ := bind_ok later
    obtain ⟨_, _, ended⟩ := bind_ok rest
    cases ended
    exact members_ok keeps read first
  next trees ending =>
    obtain ⟨left, _, read⟩ := bind_ok run
    exact elements_ok keeps read first
  next => exact absurd run (mismatch_ne_ok _ _ _)

end

theorem of_ok {α : Type} {name : String} {decode : Nat → Tree → Decoded α} {set : σ → α → σ}
    {levels : Nat} {tree : Tree} {before after : σ}
    (run : (FieldRule.of name decode set).decode levels tree before = .ok after) :
    ∃ value, decode levels tree = .ok value ∧ set before value = after :=
  map_ok run

end Json.Decode

namespace Written

open Json Json.Decode

/-- No table of the document has a key twice. -/
structure Document.Distinct (written : Written.Document) : Prop where
  schemas : written.schemas.keys.Nodup
  routers : written.routers.keys.Nodup
  procedures : ∀ name router, (name, router) ∈ written.routers → router.procedures.keys.Nodup

theorem Router.decode_distinct {form : Form} {levels : Nat} {tree : Tree} {router : Router}
    (read : record "RawRouter" (Router.fields form) {} form levels tree = .ok router) :
    router.procedures.keys.Nodup := by
  refine record_ok (fun router : Router => router.procedures.keys.Nodup) ?_ read List.nodup_nil
  intro field member levels tree before after _ run
  obtain rfl := List.mem_singleton.mp member
  obtain ⟨procedures, read, rfl⟩ := of_ok run
  exact (table_ok (fun _ => True) (fun _ _ _ _ => trivial) read).distinct

/-- A decoded document has no key twice in any of its tables. -/
theorem Document.decode_distinct {form : Form} {levels : Nat} {tree : Tree} {written : Document}
    (read : Document.decode form levels tree = .ok written) : written.Distinct := by
  refine record_ok Document.Distinct ?_ read ⟨List.nodup_nil, List.nodup_nil, nofun⟩
  intro field member levels tree before after distinct run
  rcases List.mem_cons.mp member with rfl | member
  · obtain ⟨schemas, read, rfl⟩ := of_ok run
    exact { distinct with
      schemas := (table_ok (fun _ => True) (fun _ _ _ _ => trivial) read).distinct }
  · obtain rfl := List.mem_singleton.mp member
    obtain ⟨routers, read, rfl⟩ := of_ok run
    have tabulates := table_ok (fun router : Router => router.procedures.keys.Nodup)
      (fun _ _ _ => Router.decode_distinct) read
    refine { distinct with routers := tabulates.distinct, procedures := ?_ }
    intro name router member
    exact tabulates.values name router (Table.get?_of_mem tabulates.distinct member)

end Written

end RouterClient
