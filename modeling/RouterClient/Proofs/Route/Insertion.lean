import RouterClient.Route.Tree

/-! # Putting a procedure into a tree of routes

What one insertion does to a tree: the procedure is found at the end of its segments, the namespaces
on the way get at most one more entry, which comes last, and everything else stays where it was.  It
is refused when something stands at the end of the segments, or a procedure on the way there.
-/

namespace RouterClient.Table

universe u v

variable {κ : Type u} {ν : Type v} [DecidableEq κ]

/-- The entry under a key is changed where it stands. -/
theorem exists_split_of_get? {key : κ} {value : ν} {table : Table κ ν}
    (found : get? key table = some value) :
    ∃ before after, table = before ++ (key, value) :: after ∧
      ∀ other, insert key other table = before ++ (key, other) :: after := by
  induction table with
  | nil => simp at found
  | cons entry rest ih =>
      obtain ⟨k, old⟩ := entry
      by_cases same : k = key
      · subst same
        simp only [get?, if_pos, Option.some.injEq] at found
        subst found
        exact ⟨[], rest, rfl, fun other => by simp [insert]⟩
      · simp only [get?, if_neg same] at found
        obtain ⟨before, after, split, changed⟩ := ih found
        refine ⟨(k, old) :: before, after, by rw [split, List.cons_append], fun other => ?_⟩
        rw [insert, if_neg same, changed, List.cons_append]

end RouterClient.Table

namespace RouterClient.Route

/-- What some segments lead to from an entry. -/
def Entry.follow? : List String → Entry → Option Entry
  | [], entry => some entry
  | _ :: _, .procedure _ => none
  | step :: more, .space entries =>
    match Table.get? step entries with
    | some entry => follow? more entry
    | none => none

/-- A procedure with the segments that lead to it. -/
abbrev Leaf := List String × Procedure

def Leaf.under (name : String) (leaf : Leaf) : Leaf :=
  (name :: leaf.1, leaf.2)

mutual

/-- The procedures at or below an entry, in order. -/
def Entry.leaves : Entry → List Leaf
  | .procedure procedure => [([], procedure)]
  | .space entries => Tree.leaves entries

/-- The procedures of a tree, in order. -/
def Tree.leaves : Tree → List Leaf
  | [] => []
  | (name, entry) :: more => entry.leaves.map (Leaf.under name) ++ Tree.leaves more

end

namespace Tree

/-- What some segments lead to from the root. -/
def follow? (steps : List String) (tree : Tree) : Option Entry :=
  Entry.follow? steps (.space tree)

/-- The names in the namespace at the end of some segments; none where there is no namespace. -/
def namesAt (steps : List String) (tree : Tree) : List String :=
  match tree.follow? steps with
  | some (.space entries) => Table.keys entries
  | _ => []

/-- No namespace of the tree has a name twice. -/
def Distinct (tree : Tree) : Prop :=
  ∀ steps, (tree.namesAt steps).Nodup

/-- The entries of the namespace under a name, where none stands for an empty one; no tree when the
name is a procedure's. -/
def spaceUnder? (name : String) (tree : Tree) : Option Tree :=
  match Table.get? name tree with
  | none => some []
  | some (.space entries) => some entries
  | some (.procedure _) => none

variable {tree grown entries : Tree} {procedure : Procedure} {path steps : List String}
  {name : String}

@[simp] theorem follow?_nil (tree : Tree) : tree.follow? [] = some (.space tree) := rfl

theorem follow?_cons (name : String) (more : List String) (tree : Tree) :
    tree.follow? (name :: more) = (Table.get? name tree).bind (Entry.follow? more) := by
  simp only [follow?, Entry.follow?]
  cases Table.get? name tree <;> rfl

theorem follow?_insert (key : String) (entry : Entry) (name : String) (more : List String)
    (tree : Tree) :
    follow? (name :: more) (Table.insert key entry tree) =
      if key = name then entry.follow? more else tree.follow? (name :: more) := by
  rw [follow?_cons, Table.get?_insert]
  split
  · rfl
  · rw [follow?_cons]

theorem namesAt_nil (tree : Tree) : tree.namesAt [] = Table.keys tree := rfl

/-- Below a name, a tree is the namespace under that name. -/
theorem follow?_under (under : tree.spaceUnder? name = some entries) (nonempty : steps ≠ []) :
    tree.follow? (name :: steps) = entries.follow? steps := by
  rw [follow?_cons]
  unfold spaceUnder? at under
  split at under
  · next absent =>
    cases under
    cases steps with
    | nil => exact absurd rfl nonempty
    | cons => simp [absent, follow?_cons]
  · next found =>
    cases under
    rw [found]
    rfl
  · cases under

theorem namesAt_under (under : tree.spaceUnder? name = some entries) (steps : List String) :
    tree.namesAt (name :: steps) = entries.namesAt steps := by
  by_cases nonempty : steps = []
  · subst nonempty
    unfold spaceUnder? at under
    split at under
    · next absent =>
      cases under
      simp [namesAt, follow?_cons, absent, Table.keys]
    · next found =>
      cases under
      simp [namesAt, follow?_cons, found, Entry.follow?]
    · cases under
  · rw [namesAt, follow?_under under nonempty, namesAt]

theorem Distinct.under (distinct : tree.Distinct) (under : tree.spaceUnder? name = some entries) :
    entries.Distinct := by
  intro steps
  rw [← namesAt_under under]
  exact distinct _

theorem Distinct.not_mem {entry : Entry} {more : Tree}
    (distinct : Distinct ((name, entry) :: more)) : name ∉ Table.keys more := by
  have once := distinct []
  rw [namesAt_nil, Table.keys, List.map_cons, List.nodup_cons] at once
  exact once.1

theorem Distinct.head {more : Tree} (distinct : Distinct ((name, .space entries) :: more)) :
    entries.Distinct := by
  have under : spaceUnder? name ((name, .space entries) :: more) = some entries := by
    simp [spaceUnder?, Table.get?]
  exact distinct.under under

theorem Distinct.tail {entry : Entry} {more : Tree} (distinct : Distinct ((name, entry) :: more)) :
    more.Distinct := by
  intro steps
  cases steps with
  | nil =>
      have once := distinct []
      rw [namesAt_nil, Table.keys, List.map_cons, List.nodup_cons] at once
      exact once.2
  | cons first rest =>
      by_cases same : name = first
      · subst same
        simp [namesAt, follow?_cons, Table.get?_eq_none.mpr distinct.not_mem]
      · have kept := distinct (first :: rest)
        simpa only [namesAt, follow?_cons, Table.get?, if_neg same] using kept

/-- All but the last segment lead through namespaces. -/
theorem insertAt?_cons (procedure : Procedure) (first second : String) (more : List String)
    (tree : Tree) :
    insertAt? procedure (first :: second :: more) tree =
      (tree.spaceUnder? first).bind fun entries =>
        (insertAt? procedure (second :: more) entries).map fun below =>
          Table.insert first (.space below) tree := by
  simp only [insertAt?, spaceUnder?]
  rcases Table.get? first tree with _ | ⟨other⟩ | ⟨entries⟩
  · simp only [Option.bind_some]
    cases insertAt? procedure (second :: more) [] <;> rfl
  · rfl
  · simp only [Option.bind_some]
    cases insertAt? procedure (second :: more) entries <;> rfl

theorem insertAt?_cons_some {first second : String} {more : List String}
    (inserted : insertAt? procedure (first :: second :: more) tree = some grown) :
    ∃ entries below, tree.spaceUnder? first = some entries ∧
      insertAt? procedure (second :: more) entries = some below ∧
      grown = Table.insert first (.space below) tree := by
  rw [insertAt?_cons] at inserted
  obtain ⟨entries, under, inserted⟩ := Option.bind_eq_some_iff.mp inserted
  obtain ⟨below, inner, rfl⟩ := Option.map_eq_some_iff.mp inserted
  exact ⟨entries, below, under, inner, rfl⟩

/-- A name joins others, at the end if it is new. -/
def addName (names : List String) (name : String) : List String :=
  if name ∈ names then names else names ++ [name]

/-- What an insertion does to a tree. -/
structure Gains (tree : Tree) (path : List String) (procedure : Procedure) (grown : Tree) :
    Prop where
  reached : grown.follow? path = some (.procedure procedure)
  passed : ∀ steps next rest, path = steps ++ next :: rest →
    ∃ entries, grown.follow? steps = some (.space entries) ∧
      Table.keys entries = addName (tree.namesAt steps) next
  kept : ∀ steps, ¬ steps <+: path → grown.follow? steps = tree.follow? steps

theorem Gains.of_last {last : String} (free : Table.contains last tree = false) :
    Gains tree [last] procedure (Table.insert last (.procedure procedure) tree) where
  reached := by
    rw [follow?_insert, if_pos rfl]
    rfl
  passed steps next rest split := by
    cases steps with
    | nil =>
        obtain ⟨rfl, rfl⟩ := List.cons.inj split
        exact ⟨_, rfl, Table.keys_insert _ _ _⟩
    | cons step steps => simp at split
  kept steps apart := by
    cases steps with
    | nil => simp at apart
    | cons step more =>
        rw [follow?_insert]
        split
        · next same =>
          subst same
          cases more with
          | nil => simp at apart
          | cons =>
              have absent : Table.get? last tree = none := by
                simpa [Table.contains] using free
              simp [follow?_cons, absent, Entry.follow?]
        · rfl

theorem Gains.under {first second : String} {more : List String} {entries below : Tree}
    (under : tree.spaceUnder? first = some entries)
    (inner : Gains entries (second :: more) procedure below) :
    Gains tree (first :: second :: more) procedure (Table.insert first (.space below) tree) where
  reached := by
    rw [follow?_insert, if_pos rfl]
    exact inner.reached
  passed steps next rest split := by
    cases steps with
    | nil =>
        obtain ⟨rfl, rfl⟩ := List.cons.inj split
        exact ⟨_, rfl, Table.keys_insert _ _ _⟩
    | cons step steps =>
        obtain ⟨rfl, below⟩ := List.cons.inj split
        rw [follow?_insert, if_pos rfl, namesAt_under under]
        exact inner.passed steps next rest below
  kept steps apart := by
    cases steps with
    | nil => simp at apart
    | cons step steps =>
        rw [follow?_insert]
        split
        · next same =>
          subst same
          have apart : ¬ steps <+: second :: more := by
            intro leads
            exact apart (List.cons_prefix_cons.mpr ⟨rfl, leads⟩)
          have nonempty : steps ≠ [] := by
            rintro rfl
            exact apart List.nil_prefix
          rw [follow?_under under nonempty]
          exact inner.kept steps apart
        · rfl

theorem gains_of_insertAt? (inserted : insertAt? procedure path tree = some grown) :
    Gains tree path procedure grown := by
  induction path generalizing tree grown with
  | nil => simp [insertAt?] at inserted
  | cons first more ih =>
      cases more with
      | nil =>
          rw [insertAt?] at inserted
          split at inserted
          · cases inserted
          · next free =>
            cases inserted
            exact .of_last (Bool.not_eq_true _ ▸ free)
      | cons second more =>
          obtain ⟨entries, below, under, inner, rfl⟩ := insertAt?_cons_some inserted
          exact .under under (ih inner)

/-- Something stands at the end of the segments, or a procedure on the way there. -/
def Blocked (tree : Tree) (path : List String) : Prop :=
  (∃ entry, tree.follow? path = some entry) ∨
    ∃ steps, steps <+: path ∧ ∃ procedure, tree.follow? steps = some (.procedure procedure)

theorem blocked_under {first second : String} {more : List String}
    (under : tree.spaceUnder? first = some entries) :
    Blocked tree (first :: second :: more) ↔ Blocked entries (second :: more) := by
  unfold Blocked
  rw [follow?_under under (by simp)]
  refine or_congr Iff.rfl ⟨?_, ?_⟩
  · rintro ⟨steps, leads, procedure, found⟩
    cases steps with
    | nil => cases found
    | cons step rest =>
        obtain ⟨rfl, shorter⟩ := List.cons_prefix_cons.mp leads
        cases rest with
        | nil =>
            -- The first segment leads to a namespace, if to anything.
            rw [follow?_cons] at found
            obtain ⟨entry, known, same⟩ := Option.bind_eq_some_iff.mp found
            obtain rfl := Option.some.inj same
            simp [spaceUnder?, known] at under
        | cons next rest =>
            rw [follow?_under under (by simp)] at found
            exact ⟨next :: rest, shorter, procedure, found⟩
  · rintro ⟨steps, leads, procedure, found⟩
    cases steps with
    | nil => cases found
    | cons next rest =>
        rw [← follow?_under under (by simp)] at found
        exact ⟨first :: next :: rest, List.cons_prefix_cons.mpr ⟨rfl, leads⟩, procedure, found⟩

theorem insertAt?_eq_none_iff (procedure : Procedure) (path : List String) (tree : Tree) :
    insertAt? procedure path tree = none ↔ Blocked tree path := by
  induction path generalizing tree with
  | nil => simp [insertAt?, Blocked]
  | cons first more ih =>
      cases more with
      | nil =>
          have found : (∃ entry, tree.follow? [first] = some entry) ↔
              Table.contains first tree = true := by
            simp [follow?_cons, Entry.follow?, Table.contains, Option.isSome_iff_exists]
          rw [insertAt?, Blocked, found]
          constructor
          · intro refused
            exact .inl (by simpa using refused)
          · rintro (taken | ⟨steps, leads, other, known⟩)
            · rw [if_pos taken]
            · cases steps with
              | nil => cases known
              | cons step rest =>
                  obtain ⟨rfl, shorter⟩ := List.cons_prefix_cons.mp leads
                  obtain rfl := List.prefix_nil.mp shorter
                  rw [if_pos (found.mp ⟨_, known⟩)]
      | cons second more =>
          rw [insertAt?_cons]
          cases under : tree.spaceUnder? first with
          | none =>
              refine ⟨fun _ => .inr ⟨[first], by simp, ?_⟩, fun _ => rfl⟩
              unfold spaceUnder? at under
              split at under
              · cases under
              · cases under
              · next other known => exact ⟨other, by simp [follow?_cons, known, Entry.follow?]⟩
          | some entries =>
              rw [Option.bind_some, Option.map_eq_none_iff, ih, blocked_under under]

theorem leaves_append (tree more : Tree) : leaves (tree ++ more) = tree.leaves ++ more.leaves := by
  induction tree with
  | nil => rfl
  | cons entry rest ih =>
      obtain ⟨name, entry⟩ := entry
      simp only [List.cons_append, leaves, ih, List.append_assoc]

theorem mem_leaves {tree : Tree} {leaf : Leaf} :
    leaf ∈ tree.leaves ↔ ∃ name entry rest, (name, entry) ∈ tree ∧ leaf.1 = name :: rest ∧
      (rest, leaf.2) ∈ entry.leaves := by
  induction tree with
  | nil => simp [leaves]
  | cons first more ih =>
      obtain ⟨name, entry⟩ := first
      obtain ⟨steps, procedure⟩ := leaf
      simp only [leaves, Leaf.under, List.mem_append, List.mem_map, ih, List.mem_cons, Prod.mk.injEq]
      constructor
      · rintro (⟨⟨rest, _⟩, inside, rfl, rfl⟩ | ⟨other, below, rest, listed, split⟩)
        · exact ⟨name, entry, rest, .inl ⟨rfl, rfl⟩, rfl, inside⟩
        · exact ⟨other, below, rest, .inr listed, split⟩
      · rintro ⟨other, below, rest, ⟨rfl, rfl⟩ | listed, split, inside⟩
        · exact .inl ⟨(rest, procedure), inside, split.symm, rfl⟩
        · exact .inr ⟨other, below, rest, listed, split, inside⟩

/-- One leaf more in a tree, and no leaf after it is of the same namespace. -/
def AddsLeaf (tree : Tree) (path : List String) (procedure : Procedure) (grown : Tree) : Prop :=
  ∃ before after, tree.leaves = before ++ after ∧
    grown.leaves = before ++ (path, procedure) :: after ∧
    ∀ leaf ∈ after, leaf.1.dropLast ≠ path.dropLast

theorem AddsLeaf.at_end {name : String} {entry : Entry} (absent : Table.get? name tree = none)
    (single : entry.leaves.map (Leaf.under name) = [(path, procedure)]) :
    AddsLeaf tree path procedure (Table.insert name entry tree) := by
  refine ⟨tree.leaves, [], (List.append_nil _).symm, ?_, nofun⟩
  rw [Table.insert_of_absent name _ tree absent, leaves_append, leaves, single, leaves,
    List.append_nil]

/-- Leaves below a name keep apart below it. -/
theorem under_apart {leaves : List Leaf} {second : String} {more : List String}
    (named : ∀ leaf ∈ leaves, leaf.1 ≠ [])
    (apart : ∀ leaf ∈ leaves, leaf.1.dropLast ≠ (second :: more).dropLast) :
    ∀ leaf ∈ leaves.map (Leaf.under name),
      leaf.1.dropLast ≠ (name :: second :: more).dropLast := by
  intro leaf listed same
  obtain ⟨⟨steps, other⟩, inside, rfl⟩ := List.mem_map.mp listed
  cases steps with
  | nil => exact named _ inside rfl
  | cons step rest => exact apart _ inside (List.cons.inj same).2

/-- What stands after an entry leads elsewhere, as no name stands in a namespace twice. -/
theorem right_apart {left right : Tree} {entry : Entry} {second : String} {more : List String}
    (nodup : (Table.keys (left ++ (name, entry) :: right)).Nodup) :
    ∀ leaf ∈ right.leaves, leaf.1.dropLast ≠ (name :: second :: more).dropLast := by
  intro leaf listed same
  obtain ⟨other, below, rest, member, start, _⟩ := mem_leaves.mp listed
  rw [Table.keys, List.map_append, List.map_cons] at nodup
  have fresh := (List.nodup_cons.mp (List.nodup_append.mp nodup).2.1).1
  rw [start] at same
  cases rest with
  | nil => cases same
  | cons step rest =>
      obtain rfl := (List.cons.inj same).1
      exact fresh (List.mem_map.mpr ⟨_, member, rfl⟩)

theorem AddsLeaf.under {first second : String} {more : List String} {entries below : Tree}
    (distinct : tree.Distinct) (under : tree.spaceUnder? first = some entries)
    (inner : AddsLeaf entries (second :: more) procedure below) :
    AddsLeaf tree (first :: second :: more) procedure
      (Table.insert first (.space below) tree) := by
  obtain ⟨before, after, old, new, apart⟩ := inner
  unfold spaceUnder? at under
  split at under
  · next absent =>
    cases under
    obtain ⟨rfl, rfl⟩ := List.append_eq_nil_iff.mp old.symm
    exact .at_end absent (by rw [Entry.leaves, new]; rfl)
  · next found =>
    cases under
    obtain ⟨left, right, split, changed⟩ := Table.exists_split_of_get? found
    have named : ∀ leaf ∈ after, leaf.1 ≠ [] := by
      intro leaf listed empty
      obtain ⟨_, _, _, _, start, _⟩ := mem_leaves.mp (old ▸ List.mem_append_right before listed)
      rw [empty] at start
      cases start
    refine ⟨leaves left ++ before.map (Leaf.under first),
      after.map (Leaf.under first) ++ leaves right, ?_, ?_, ?_⟩
    · rw [split, leaves_append, leaves, Entry.leaves, old, List.map_append]
      simp only [List.append_assoc]
    · rw [changed, leaves_append, leaves, Entry.leaves, new, List.map_append, List.map_cons]
      simp only [List.append_assoc, List.cons_append, Leaf.under]
    · intro leaf listed
      rcases List.mem_append.mp listed with listed | listed
      · exact under_apart named apart leaf listed
      · have nodup := distinct []
        rw [namesAt_nil, split] at nodup
        exact right_apart nodup leaf listed
  · cases under

theorem addsLeaf_of_insertAt? (distinct : tree.Distinct)
    (inserted : insertAt? procedure path tree = some grown) :
    AddsLeaf tree path procedure grown := by
  induction path generalizing tree grown with
  | nil => simp [insertAt?] at inserted
  | cons first more ih =>
      cases more with
      | nil =>
          rw [insertAt?] at inserted
          split at inserted
          · cases inserted
          · next free =>
            cases inserted
            exact .at_end (by simpa [Table.contains] using free) rfl
      | cons second more =>
          obtain ⟨entries, below, under, inner, rfl⟩ := insertAt?_cons_some inserted
          exact .under distinct under (ih (distinct.under under) inner)

end Tree

end RouterClient.Route
