/-! # Ordered tables

Entries with distinct keys in the order in which the keys were first written. Writing a key again
changes its value and leaves its place alone. A table is a list of pairs, so it may hold, and be
held by, values of an inductive type.
-/

namespace RouterClient

universe u v

/-- Keys with their values, in the order in which the keys were first written. -/
abbrev Table (κ : Type u) (ν : Type v) := List (κ × ν)

namespace Table

variable {κ : Type u} {ν : Type v} [DecidableEq κ]

def get? (key : κ) : Table κ ν → Option ν
  | [] => none
  | (k, value) :: rest => if k = key then some value else get? key rest

def contains (key : κ) (table : Table κ ν) : Bool :=
  (get? key table).isSome

/-- Write a value under a key: in the key's place if it has one, otherwise at the end. -/
def insert (key : κ) (value : ν) : Table κ ν → Table κ ν
  | [] => [(key, value)]
  | (k, old) :: rest => if k = key then (k, value) :: rest else (k, old) :: insert key value rest

/-- The table without a key. -/
def erase (key : κ) (table : Table κ ν) : Table κ ν :=
  table.filter fun entry => entry.1 ≠ key

def keys (table : Table κ ν) : List κ :=
  table.map Prod.fst

def values (table : Table κ ν) : List ν :=
  table.map Prod.snd

/-- The table that writes the entries one after the other. -/
def ofEntries (entries : List (κ × ν)) : Table κ ν :=
  entries.foldl (fun table entry => insert entry.1 entry.2 table) []

@[simp] theorem get?_nil (key : κ) : get? key ([] : Table κ ν) = none := rfl

/-- What was written is read back, and no other key is touched. -/
theorem get?_insert (key other : κ) (value : ν) (table : Table κ ν) :
    get? other (insert key value table) = if key = other then some value else get? other table := by
  induction table with
  | nil => simp [insert, get?]
  | cons entry rest ih =>
    obtain ⟨k, old⟩ := entry
    by_cases hk : k = key
    · subst hk
      by_cases ho : k = other <;> simp [insert, get?, ho]
    · by_cases ho : k = other
      · subst ho
        simp [insert, get?, hk, Ne.symm hk]
      · simp [insert, get?, hk, ho, ih]

/-- An erased key has no value, and no other key is touched. -/
theorem get?_erase (key other : κ) (table : Table κ ν) :
    get? other (erase key table) = if key = other then none else get? other table := by
  induction table with
  | nil => simp [erase]
  | cons entry rest ih =>
    obtain ⟨k, old⟩ := entry
    simp only [erase] at ih
    by_cases hk : k = key
    · subst hk
      by_cases ho : k = other
      · subst ho
        simpa [erase, get?] using ih
      · simpa [erase, get?, ho] using ih
    · by_cases ho : k = other
      · subst ho
        simp [erase, get?, hk, Ne.symm hk]
      · simpa [erase, get?, hk, ho] using ih

/-- Erasing a key that has just been given its first value undoes that. -/
theorem erase_insert (key : κ) (value : ν) (table : Table κ ν) (absent : get? key table = none) :
    erase key (insert key value table) = table := by
  induction table with
  | nil => simp [insert, erase]
  | cons entry rest ih =>
    obtain ⟨k, old⟩ := entry
    by_cases hk : k = key
    · simp [get?, hk] at absent
    · simp only [get?, if_neg hk] at absent
      simpa [insert, erase, hk] using ih absent

/-- A key that has no value is written at the end. -/
theorem insert_of_absent (key : κ) (value : ν) (table : Table κ ν)
    (absent : get? key table = none) : insert key value table = table ++ [(key, value)] := by
  induction table with
  | nil => rfl
  | cons entry rest ih =>
    obtain ⟨k, old⟩ := entry
    by_cases hk : k = key
    · simp [get?, hk] at absent
    · simp only [get?, if_neg hk] at absent
      simp only [insert, if_neg hk, ih absent, List.cons_append]

/-- A table is searched from its start. -/
theorem get?_append (key : κ) (table more : Table κ ν) :
    get? key (table ++ more) = (get? key table).or (get? key more) := by
  induction table with
  | nil => simp
  | cons entry rest ih =>
    obtain ⟨k, old⟩ := entry
    by_cases hk : k = key
    · simp [get?, hk]
    · simpa [get?, hk] using ih

theorem get?_eq_none {key : κ} {table : Table κ ν} : get? key table = none ↔ key ∉ keys table := by
  induction table with
  | nil => simp [keys]
  | cons entry rest ih =>
    obtain ⟨k, old⟩ := entry
    by_cases hk : k = key
    · simp [get?, keys, hk]
    · simpa [get?, keys, hk, Ne.symm hk] using ih

theorem mem_of_get? {key : κ} {value : ν} {table : Table κ ν}
    (found : get? key table = some value) : (key, value) ∈ table := by
  induction table with
  | nil => simp at found
  | cons entry rest ih =>
    obtain ⟨k, old⟩ := entry
    by_cases hk : k = key
    · simp only [get?, if_pos hk, Option.some.injEq] at found
      simp [hk, found]
    · simp only [get?, if_neg hk] at found
      exact List.mem_cons_of_mem _ (ih found)

theorem get?_of_mem {key : κ} {value : ν} {table : Table κ ν} (nodup : (keys table).Nodup)
    (member : (key, value) ∈ table) : get? key table = some value := by
  induction table with
  | nil => cases member
  | cons entry rest ih =>
    obtain ⟨k, old⟩ := entry
    obtain ⟨absent, later⟩ := List.nodup_cons.mp nodup
    rcases List.mem_cons.mp member with same | member
    · cases same
      simp [get?]
    · have hk : k ≠ key := by
        rintro rfl
        exact absent (List.mem_map.mpr ⟨(k, value), member, rfl⟩)
      simpa [get?, hk] using ih later member

/-- Writing a key that the table has keeps the keys; another one comes last. -/
theorem keys_insert (key : κ) (value : ν) (table : Table κ ν) :
    keys (insert key value table) =
      if key ∈ keys table then keys table else keys table ++ [key] := by
  induction table with
  | nil => simp [insert, keys]
  | cons entry rest ih =>
    obtain ⟨k, old⟩ := entry
    simp only [keys] at ih
    by_cases hk : k = key
    · simp [insert, keys, hk]
    · by_cases hm : key ∈ rest.map Prod.fst
      · simp [insert, keys, hk, ih, hm]
      · simp [insert, keys, hk, Ne.symm hk, ih, hm]

/-- Writing does not give a table the same key twice. -/
theorem nodup_keys_insert (key : κ) (value : ν) {table : Table κ ν} (nodup : (keys table).Nodup) :
    (keys (insert key value table)).Nodup := by
  rw [keys_insert]
  split
  · exact nodup
  · next absent =>
    refine List.nodup_append.mpr ⟨nodup, by simp, ?_⟩
    intro k member other single
    obtain rfl := List.mem_singleton.mp single
    rintro rfl
    exact absent member

end Table

end RouterClient
