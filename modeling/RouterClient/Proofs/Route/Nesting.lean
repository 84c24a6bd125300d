import RouterClient.Proofs.Route.Insertion
import Mathlib.Data.List.Basic
import Mathlib.Data.List.Induction

/-! # Procedures nested by their paths

Paths go into one tree if and only if none of them has an empty segment or leads through another.
The tree then holds what the paths say and nothing else: the procedures are found at the end of their
segments, the names of a namespace stand in the order in which they are first seen, and read off the
tree again the procedures are those that went in.
-/

namespace RouterClient.Text

theorem pieces_ne_nil (mark : Char) (cs : List Char) : pieces mark cs ≠ [] := by
  cases cs with
  | nil => simp
  | cons c rest =>
      simp only [pieces, List.foldr_cons]
      split
      · simp
      · split <;> simp

theorem intercalate_pieces (mark : Char) (cs : List Char) :
    [mark].intercalate (pieces mark cs) = cs := by
  induction cs with
  | nil => rfl
  | cons c rest ih =>
      obtain ⟨piece, more, found⟩ := List.exists_cons_of_ne_nil (pieces_ne_nil mark rest)
      rw [found] at ih
      by_cases marks : c = mark
      · rw [marks, pieces_cons_mark, found, List.intercalate_cons_cons, ih]
        rfl
      · have grown : pieces mark (c :: rest) = (c :: piece) :: more := by
          rw [pieces] at found
          simp only [pieces, List.foldr_cons, if_neg marks, found]
        rw [grown]
        cases more with
        | nil => rw [← ih]; rfl
        | cons next more =>
            rw [List.intercalate_cons_cons] at ih ⊢
            rw [← ih]
            rfl

end RouterClient.Text

namespace RouterClient.Route

/-- Segments with points between them. -/
def join (steps : List String) : String :=
  ".".intercalate steps

@[simp] theorem join_segments (path : String) : join (segments path) = path := by
  apply String.toList_injective
  rw [join, String.toList_intercalate, segments, Text.split, List.map_map]
  have same : String.toList ∘ String.ofList = id := by
    funext cs
    exact String.toList_ofList
  rw [same, List.map_id]
  exact Text.intercalate_pieces '.' path.toList

theorem segments_injective {path other : String} (same : segments path = segments other) :
    path = other := by
  rw [← join_segments path, same, join_segments]

theorem segments_ne_nil (path : String) : segments path ≠ [] := by
  rw [segments, Text.split]
  intro empty
  exact Text.pieces_ne_nil _ _ (List.map_eq_nil_iff.mp empty)

/-- Paths that go into one tree: no segment is empty, and no path leads through another. -/
structure ConflictFree (paths : List String) : Prop where
  filled : ∀ path ∈ paths, "" ∉ segments path
  apart : ∀ path ∈ paths, ∀ other ∈ paths,
    segments path <+: segments other → segments path = segments other

/-- What is wrong with a path that does not go with those before it. -/
def refusal (path : String) : Failure :=
  if "" ∈ segments path then .emptySegment path else .pathConflict path

/-- The segment that follows some others on a path. -/
def nextAfter (steps path : List String) : Option String :=
  (path.dropPrefix? steps).bind List.head?

/-- The leaves that procedures are to become. -/
def located (procedures : Table String Procedure) : List Leaf :=
  procedures.map fun entry => (segments entry.1, entry.2)

namespace Tree

/-- The procedures of a tree with their paths, in order. -/
def flatten (tree : Tree) : List (String × Procedure) :=
  tree.leaves.map fun leaf => (join leaf.1, leaf.2)

/-- A tree that has some leaves and nothing else. -/
structure Holds (tree : Tree) (leaves : List Leaf) : Prop where
  procedure : ∀ steps procedure,
    tree.follow? steps = some (.procedure procedure) ↔ (steps, procedure) ∈ leaves
  names : ∀ steps,
    tree.namesAt steps = (leaves.filterMap fun leaf => nextAfter steps leaf.1).eraseDups
  populated : ∀ steps, steps ≠ [] → tree.follow? steps ≠ some (.space [])
  perm : tree.leaves.Perm leaves
  inOrder : ∀ space : List String, tree.leaves.filter (·.1.dropLast = space) =
    leaves.filter (·.1.dropLast = space)

/-- The tree of some procedures: every path leads to its procedure, no other procedure and no
namespace without entries is in it, the names of a namespace stand in the order in which paths
first mention them, and the procedures are those of the map, in its order within a namespace. -/
structure Nests (procedures : Table String Procedure) (tree : Tree) : Prop where
  reaches : ∀ path procedure, (path, procedure) ∈ procedures →
    tree.follow? (segments path) = some (.procedure procedure)
  only : ∀ steps procedure, tree.follow? steps = some (.procedure procedure) →
    ∃ path, segments path = steps ∧ (path, procedure) ∈ procedures
  populated : ∀ steps, steps ≠ [] → tree.follow? steps ≠ some (.space [])
  firstSeen : ∀ steps entries, tree.follow? steps = some (.space entries) →
    Table.keys entries =
      (procedures.filterMap fun entry => nextAfter steps (segments entry.1)).eraseDups
  perm : tree.flatten.Perm procedures
  inOrder : ∀ space : List String,
    tree.flatten.filter (fun entry => (segments entry.1).dropLast = space) =
      procedures.filter (fun entry => (segments entry.1).dropLast = space)

end Tree

theorem nextAfter_eq_some {steps path : List String} {next : String} :
    nextAfter steps path = some next ↔ ∃ rest, path = steps ++ next :: rest := by
  simp only [nextAfter, Option.bind_eq_some_iff, List.dropPrefix?_eq_some_iff, beq_iff_eq,
    List.head?_eq_some_iff]
  constructor
  · rintro ⟨_, ⟨_, rfl, rfl⟩, rest, rfl⟩
    exact ⟨rest, rfl⟩
  · rintro ⟨rest, rfl⟩
    exact ⟨next :: rest, ⟨steps, rfl, rfl⟩, rest, rfl⟩

theorem nextAfter_eq_none {steps path : List String} (apart : ¬ steps <+: path) :
    nextAfter steps path = none := by
  cases next : nextAfter steps path with
  | none => rfl
  | some step =>
      obtain ⟨rest, rfl⟩ := nextAfter_eq_some.mp next
      exact absurd (List.prefix_append _ _) apart

theorem nextAfter_self (path : List String) : nextAfter path path = none := by
  cases next : nextAfter path path with
  | none => rfl
  | some step =>
      obtain ⟨rest, same⟩ := nextAfter_eq_some.mp next
      simp at same

theorem eraseDups_nodup (names : List String) : names.eraseDups.Nodup := by
  induction names using List.reverseRecOn with
  | nil => simp
  | append_singleton names name ih =>
      rw [List.eraseDups_append]
      by_cases known : name ∈ names
      · simpa [List.removeAll, known] using ih
      · refine List.nodup_append.mpr ⟨ih, by simp [List.removeAll, known, List.eraseDups_cons], ?_⟩
        simp only [List.removeAll, List.mem_eraseDups, List.elem_eq_contains]
        intro other seen new fresh same
        subst same
        simp only [List.mem_filter, List.contains_eq_mem, Bool.not_eq_true'] at fresh
        simp [seen] at fresh

theorem eraseDups_concat (names : List String) (name : String) :
    (names ++ [name]).eraseDups = Tree.addName names.eraseDups name := by
  rw [List.eraseDups_append]
  by_cases known : name ∈ names <;>
    simp [List.removeAll, Tree.addName, known, List.eraseDups_cons]

namespace Tree.Holds

variable {tree grown : Tree} {leaves : List Leaf} {path : List String} {procedure : Procedure}

theorem empty : Holds [] [] where
  procedure steps procedure := by
    cases steps <;> simp [follow?_cons]
  names steps := by
    cases steps <;> simp [namesAt, follow?_cons, Table.keys]
  populated steps nonempty := by
    cases steps with
    | nil => exact absurd rfl nonempty
    | cons => simp [follow?_cons]
  perm := by simp [Tree.leaves]
  inOrder space := by simp [Tree.leaves]

theorem distinct (holds : Holds tree leaves) : tree.Distinct := by
  intro steps
  rw [holds.names]
  exact eraseDups_nodup _

theorem mem_namesAt (holds : Holds tree leaves) {steps rest : List String} {next : String}
    (listed : (steps ++ next :: rest, procedure) ∈ leaves) : next ∈ tree.namesAt steps := by
  rw [holds.names, List.mem_eraseDups, List.mem_filterMap]
  exact ⟨_, listed, nextAfter_eq_some.mpr ⟨rest, rfl⟩⟩

theorem exists_follow?_of_mem {steps : List String} {name : String}
    (named : name ∈ tree.namesAt steps) :
    ∃ entries, tree.follow? steps = some (.space entries) := by
  unfold namesAt at named
  split at named
  · next entries found => exact ⟨entries, found⟩
  · cases named

/-- Something stands in the way of a path if and only if one of it and some leaf leads through the
other. -/
theorem blocked_iff (holds : Holds tree leaves) (nonempty : path ≠ []) :
    Blocked tree path ↔ ∃ leaf ∈ leaves, path <+: leaf.1 ∨ leaf.1 <+: path := by
  constructor
  · rintro (⟨entry, found⟩ | ⟨steps, leads, procedure, found⟩)
    · cases entry with
      | procedure procedure =>
          exact ⟨_, (holds.procedure _ _).mp found, .inl List.prefix_rfl⟩
      | space entries =>
          -- Below the root no namespace is empty, so some leaf goes through the first name in this one.
          have filled : entries ≠ [] := by
            rintro rfl
            exact holds.populated path nonempty found
          obtain ⟨⟨name, entry⟩, more, rfl⟩ := List.exists_cons_of_ne_nil filled
          have named : name ∈ tree.namesAt path := by
            rw [namesAt, found]
            exact List.mem_cons_self
          rw [holds.names, List.mem_eraseDups, List.mem_filterMap] at named
          obtain ⟨leaf, listed, next⟩ := named
          obtain ⟨rest, same⟩ := nextAfter_eq_some.mp next
          exact ⟨leaf, listed, .inl (same ▸ List.prefix_append _ _)⟩
    · exact ⟨_, (holds.procedure _ _).mp found, .inr leads⟩
  · rintro ⟨⟨steps, procedure⟩, listed, leads | leads⟩
    · obtain ⟨rest, rfl⟩ := leads
      cases rest with
      | nil =>
          rw [List.append_nil] at listed
          exact .inl ⟨_, (holds.procedure _ _).mpr listed⟩
      | cons next rest =>
          obtain ⟨entries, found⟩ := exists_follow?_of_mem (holds.mem_namesAt listed)
          exact .inl ⟨_, found⟩
    · exact .inr ⟨steps, leads, procedure, (holds.procedure _ _).mpr listed⟩

theorem leaves_step {leaves : List Leaf} (adds : AddsLeaf tree path procedure grown)
    (perm : tree.leaves.Perm leaves)
    (inOrder : ∀ space : List String, tree.leaves.filter (·.1.dropLast = space) =
      leaves.filter (·.1.dropLast = space)) :
    grown.leaves.Perm (leaves ++ [(path, procedure)]) ∧
      ∀ space : List String, grown.leaves.filter (·.1.dropLast = space) =
        (leaves ++ [(path, procedure)]).filter (·.1.dropLast = space) := by
  obtain ⟨before, after, old, new, apart⟩ := adds
  rw [old] at perm inOrder
  rw [new]
  refine ⟨?_, fun space => ?_⟩
  · calc before ++ (path, procedure) :: after
      _ |>.Perm ((path, procedure) :: (before ++ after)) := List.perm_middle
      _ |>.Perm ((path, procedure) :: leaves) := perm.cons _
      _ |>.Perm (leaves ++ [(path, procedure)]) := (List.perm_append_singleton _ _).symm
  · rw [List.filter_append, List.filter_append, ← inOrder, List.filter_append]
    by_cases here : path.dropLast = space
    · have none_after : after.filter (·.1.dropLast = space) = [] := by
        rw [List.filter_eq_nil_iff]
        intro leaf listed
        simpa [here] using apart leaf listed
      simp [here, none_after]
    · simp [here]

/-- How some segments stand to a path: aside, at its end, or on the way there. -/
theorem aside_or_end_or_on (steps path : List String) :
    ¬ steps <+: path ∨ steps = path ∨ ∃ next rest, path = steps ++ next :: rest := by
  by_cases leads : steps <+: path
  · obtain ⟨rest, rfl⟩ := leads
    cases rest with
    | nil => exact .inr (.inl (List.append_nil _).symm)
    | cons next rest => exact .inr (.inr ⟨next, rest, rfl⟩)
  · exact .inl leads

section

variable (holds : Holds tree leaves) (gains : Gains tree path procedure grown)
  (free : ¬ Blocked tree path)
include holds gains free

theorem procedure_of_gains (steps : List String) (other : Procedure) :
    grown.follow? steps = some (.procedure other) ↔
      (steps, other) ∈ leaves ++ [(path, procedure)] := by
  rw [List.mem_append, List.mem_singleton, Prod.mk.injEq]
  have unlisted (leads : steps <+: path) : (steps, other) ∉ leaves := fun listed =>
    free (.inr ⟨steps, leads, other, (holds.procedure _ _).mpr listed⟩)
  rcases aside_or_end_or_on steps path with aside | rfl | ⟨next, rest, same⟩
  · have different : steps ≠ path := by
      rintro rfl
      exact aside List.prefix_rfl
    rw [gains.kept steps aside, holds.procedure]
    simp [different]
  · simp [gains.reached, unlisted List.prefix_rfl, eq_comm]
  · obtain ⟨entries, found, _⟩ := gains.passed steps next rest same
    have leads : steps <+: path := ⟨_, same.symm⟩
    have different : steps ≠ path := by
      rintro rfl
      simp at same
    simp [found, unlisted leads, different]

theorem names_of_gains (steps : List String) :
    grown.namesAt steps =
      ((leaves ++ [(path, procedure)]).filterMap fun leaf => nextAfter steps leaf.1).eraseDups := by
  have single : [(path, procedure)].filterMap (fun leaf => nextAfter steps leaf.1) =
      (nextAfter steps path).toList := by
    cases next : nextAfter steps path <;> simp [next]
  rw [List.filterMap_append, single]
  rcases aside_or_end_or_on steps path with aside | rfl | ⟨next, rest, same⟩
  · rw [nextAfter_eq_none aside, Option.toList_none, List.append_nil, ← holds.names, namesAt,
      gains.kept steps aside, namesAt]
  · have unnamed : tree.namesAt steps = [] := by
      unfold namesAt
      split
      · next found => exact absurd (.inl ⟨_, found⟩) free
      · rfl
    rw [nextAfter_self, Option.toList_none, List.append_nil, ← holds.names, unnamed, namesAt,
      gains.reached]
  · obtain ⟨entries, found, keys⟩ := gains.passed steps next rest same
    rw [nextAfter_eq_some.mpr ⟨rest, same⟩, Option.toList_some, eraseDups_concat,
      ← holds.names, namesAt, found]
    exact keys

omit free in
theorem populated_of_gains (steps : List String) (nonempty : steps ≠ []) :
    grown.follow? steps ≠ some (.space []) := by
  intro found
  rcases aside_or_end_or_on steps path with aside | rfl | ⟨next, rest, same⟩
  · rw [gains.kept steps aside] at found
    exact holds.populated steps nonempty found
  · rw [gains.reached] at found
    cases found
  · obtain ⟨entries, known, keys⟩ := gains.passed steps next rest same
    rw [known] at found
    cases found
    unfold addName at keys
    split at keys
    · next listed =>
      rw [← keys] at listed
      cases listed
    · simp [Table.keys] at keys

end

/-- An insertion that is not refused adds its leaf and nothing else. -/
theorem insert (holds : Holds tree leaves)
    (inserted : insertAt? procedure path tree = some grown) :
    Holds grown (leaves ++ [(path, procedure)]) := by
  have gains := gains_of_insertAt? inserted
  have free : ¬ Blocked tree path := by
    rw [← insertAt?_eq_none_iff procedure, inserted]
    simp
  obtain ⟨perm, inOrder⟩ := leaves_step (addsLeaf_of_insertAt? holds.distinct inserted) holds.perm
    holds.inOrder
  exact ⟨procedure_of_gains holds gains free, names_of_gains holds gains free,
    populated_of_gains holds gains, perm, inOrder⟩

end Tree.Holds

theorem ConflictFree.of_append {paths more : List String} (free : ConflictFree (paths ++ more)) :
    ConflictFree paths where
  filled path listed := free.filled path (List.mem_append_left _ listed)
  apart path listed other listed' :=
    free.apart path (List.mem_append_left _ listed) other (List.mem_append_left _ listed')

/-- A path goes with others if and only if its segments are not empty and no other path leads
through it or it through the other. -/
theorem conflictFree_concat {paths : List String} {path : String} (free : ConflictFree paths)
    (new : path ∉ paths) :
    ConflictFree (paths ++ [path]) ↔ "" ∉ segments path ∧ ∀ other ∈ paths,
      ¬ (segments path <+: segments other ∨ segments other <+: segments path) := by
  constructor
  · intro grown
    refine ⟨grown.filled path (by simp), ?_⟩
    rintro other listed (leads | leads)
    · have same := grown.apart path (by simp) other (List.mem_append_left _ listed) leads
      exact new (segments_injective same ▸ listed)
    · have same := grown.apart other (List.mem_append_left _ listed) path (by simp) leads
      exact new (segments_injective same ▸ listed)
  · rintro ⟨filled, apart⟩
    constructor
    · intro other listed
      rcases List.mem_append.mp listed with listed | single
      · exact free.filled other listed
      · exact List.mem_singleton.mp single ▸ filled
    · intro first listed second listed' leads
      rcases List.mem_append.mp listed with old | new <;>
        rcases List.mem_append.mp listed' with old' | new'
      · exact free.apart first old second old' leads
      · obtain rfl := List.mem_singleton.mp new'
        exact absurd (.inr leads) (apart first old)
      · obtain rfl := List.mem_singleton.mp new
        exact absurd (.inl leads) (apart second old')
      · rw [List.mem_singleton.mp new, List.mem_singleton.mp new']

theorem Tree.insertPath_of_filled {path : String} (tree : Tree) (procedure : Procedure)
    (filled : "" ∉ segments path) :
    tree.insertPath path procedure =
      (Tree.insertAt? procedure (segments path) tree).elim (.error (.pathConflict path)) .ok := by
  have skipped : ¬ (segments path).contains "" = true := by simpa using filled
  simp only [Tree.insertPath, if_neg skipped]
  cases Tree.insertAt? procedure (segments path) tree <;> rfl

/-- A path goes into the tree of the paths before it if and only if it goes with them. -/
theorem insertPath_spec {procedures : Table String Procedure} {tree : Tree} {path : String}
    (procedure : Procedure) (free : ConflictFree procedures.keys) (new : path ∉ procedures.keys)
    (holds : tree.Holds (located procedures)) :
    (ConflictFree (procedures.keys ++ [path]) ∧ ∃ grown,
      tree.insertPath path procedure = .ok grown ∧
      grown.Holds (located (procedures ++ [(path, procedure)]))) ∨
    ¬ ConflictFree (procedures.keys ++ [path]) ∧
      tree.insertPath path procedure = .error (refusal path) := by
  rw [conflictFree_concat free new]
  -- An empty segment is looked for first, so it decides the failure where both conditions fail.
  by_cases filled : "" ∈ segments path
  · refine .inr ⟨fun clear => clear.1 filled, ?_⟩
    simp [Tree.insertPath, filled, refusal]
  · have blocked := holds.blocked_iff (segments_ne_nil path)
    rw [← Tree.insertAt?_eq_none_iff procedure] at blocked
    rw [Tree.insertPath_of_filled tree procedure filled]
    cases inserted : Tree.insertAt? procedure (segments path) tree with
    | none =>
        obtain ⟨leaf, listed, leads⟩ := blocked.mp inserted
        obtain ⟨entry, member, rfl⟩ := List.mem_map.mp listed
        refine .inr ⟨fun clear => clear.2 entry.1 (List.mem_map_of_mem member) leads, ?_⟩
        rw [refusal, if_neg filled]
        rfl
    | some grown =>
        refine .inl ⟨⟨filled, ?_⟩, grown, rfl, ?_⟩
        · intro other listed leads
          obtain ⟨entry, member, rfl⟩ := List.mem_map.mp listed
          have refused := blocked.mpr ⟨_, List.mem_map_of_mem member, leads⟩
          rw [inserted] at refused
          cases refused
        · rw [located, List.map_append]
          exact holds.insert inserted

theorem ofProcedures_concat (procedures : Table String Procedure) (path : String)
    (procedure : Procedure) :
    Tree.ofProcedures (procedures ++ [(path, procedure)]) =
      Tree.ofProcedures procedures >>= fun tree => tree.insertPath path procedure := by
  simp [Tree.ofProcedures, List.foldlM_append]

theorem insertPath_ok {tree grown : Tree} {path : String} {procedure : Procedure}
    (inserted : tree.insertPath path procedure = .ok grown) :
    Tree.insertAt? procedure (segments path) tree = some grown := by
  by_cases filled : "" ∈ segments path
  · simp [Tree.insertPath, filled] at inserted
  rw [Tree.insertPath_of_filled tree procedure filled] at inserted
  cases found : Tree.insertAt? procedure (segments path) tree with
  | none =>
      rw [found] at inserted
      cases inserted
  | some other =>
      rw [found] at inserted
      cases inserted
      rfl

/-- A tree that is built holds every procedure where its path leads, and has met no path twice. -/
theorem ofProcedures_holds {procedures : Table String Procedure} {tree : Tree}
    (built : Tree.ofProcedures procedures = .ok tree) :
    procedures.keys.Nodup ∧ tree.Holds (located procedures) := by
  induction procedures using List.reverseRecOn generalizing tree with
  | nil =>
      cases built
      exact ⟨List.nodup_nil, .empty⟩
  | append_singleton procedures entry ih =>
      obtain ⟨path, procedure⟩ := entry
      rw [ofProcedures_concat] at built
      cases before : Tree.ofProcedures procedures with
      | error failure =>
          rw [before] at built
          cases built
      | ok smaller =>
          rw [before] at built
          obtain ⟨distinct, holds⟩ := ih before
          have inserted := insertPath_ok built
          have new : path ∉ Table.keys procedures := by
            intro again
            obtain ⟨entry, listed, rfl⟩ := List.mem_map.mp again
            have blocked := (holds.blocked_iff (segments_ne_nil entry.1)).mpr
              ⟨_, List.mem_map_of_mem listed, .inl List.prefix_rfl⟩
            rw [← Tree.insertAt?_eq_none_iff procedure, inserted] at blocked
            cases blocked
          constructor
          · rw [Table.keys, List.map_append, List.map_singleton, List.nodup_append]
            refine ⟨distinct, by simp, ?_⟩
            rintro other listed _ single rfl
            obtain rfl := List.mem_singleton.mp single
            exact new listed
          · rw [located, List.map_append]
            exact holds.insert inserted

/-- A failure that names the first path that does not go with those before it. -/
def FirstConflict (procedures : Table String Procedure) (failure : Failure) : Prop :=
  ∃ before path procedure after, procedures = before ++ (path, procedure) :: after ∧
    ConflictFree (Table.keys before) ∧ ¬ ConflictFree (Table.keys before ++ [path]) ∧
    failure = refusal path

/-- The tree grows with the paths read so far, until one does not go with them. -/
theorem ofProcedures_run (procedures : Table String Procedure)
    (distinct : procedures.keys.Nodup) :
    (ConflictFree procedures.keys ∧ ∃ tree, Tree.ofProcedures procedures = .ok tree ∧
      tree.Holds (located procedures)) ∨
    ∃ failure, Tree.ofProcedures procedures = .error failure ∧
      FirstConflict procedures failure := by
  induction procedures using List.reverseRecOn with
  | nil => exact .inl ⟨⟨nofun, nofun⟩, [], rfl, .empty⟩
  | append_singleton procedures entry ih =>
      obtain ⟨path, procedure⟩ := entry
      rw [Table.keys, List.map_append, List.map_singleton, List.nodup_append] at distinct
      have new : path ∉ Table.keys procedures := fun listed => distinct.2.2 path listed path (by simp) rfl
      rw [ofProcedures_concat]
      rcases ih distinct.1 with ⟨free, tree, built, holds⟩ | ⟨failure, failed, first⟩
      · rw [built]
        rcases insertPath_spec procedure free new holds with ⟨grown, tree, made, holds⟩ |
          ⟨conflict, refused⟩
        · refine .inl ⟨?_, tree, made, holds⟩
          rw [Table.keys, List.map_append]
          exact grown
        · exact .inr ⟨_, refused, procedures, path, procedure, [], rfl, free, conflict, rfl⟩
      · rw [failed]
        obtain ⟨before, other, taken, after, split, rest⟩ := first
        refine .inr ⟨failure, rfl, before, other, taken, after ++ [(path, procedure)], ?_, rest⟩
        rw [split, List.append_assoc, List.cons_append]

theorem FirstConflict.not_conflictFree {procedures : Table String Procedure} {failure : Failure}
    (first : FirstConflict procedures failure) : ¬ ConflictFree procedures.keys := by
  obtain ⟨before, path, procedure, after, rfl, _, conflict, _⟩ := first
  intro free
  rw [Table.keys, List.map_append, List.map_cons, ← List.singleton_append,
    ← List.append_assoc] at free
  exact conflict free.of_append

theorem Tree.Holds.nests {procedures : Table String Procedure} {tree : Tree}
    (holds : tree.Holds (located procedures)) : tree.Nests procedures := by
  have back : (located procedures).map (fun leaf => (join leaf.1, leaf.2)) = procedures := by
    simp [located, List.map_map, Function.comp_def]
  have cut : ∀ leaf ∈ tree.leaves, segments (join leaf.1) = leaf.1 := by
    intro leaf listed
    obtain ⟨entry, _, rfl⟩ := List.mem_map.mp (holds.perm.subset listed)
    rw [join_segments]
  constructor
  · intro path procedure listed
    exact (holds.procedure _ _).mpr (List.mem_map.mpr ⟨_, listed, rfl⟩)
  · intro steps procedure found
    obtain ⟨⟨path, other⟩, listed, same⟩ := List.mem_map.mp ((holds.procedure _ _).mp found)
    cases same
    exact ⟨path, rfl, listed⟩
  · exact holds.populated
  · intro steps entries found
    have names := holds.names steps
    rw [namesAt, found, located, List.filterMap_map] at names
    exact names
  · have perm := holds.perm.map fun leaf : Leaf => (join leaf.1, leaf.2)
    rwa [back] at perm
  · intro space
    have same : tree.leaves.filter (fun leaf => (segments (join leaf.1)).dropLast = space) =
        tree.leaves.filter (·.1.dropLast = space) := by
      apply List.filter_congr
      intro leaf listed
      rw [cut leaf listed]
    rw [flatten, List.filter_map, Function.comp_def, same, holds.inOrder, located, List.filter_map,
      List.map_map]
    simp [Function.comp_def]

/-- Procedures with distinct paths have a tree if and only if their paths are free of conflicts.  The
tree holds all of them where their paths lead and nothing else, and a failure is about the first path
that does not go with those before it. -/
theorem ofProcedures_spec (procedures : Table String Procedure)
    (distinct : procedures.keys.Nodup) :
    ((∃ tree, Tree.ofProcedures procedures = .ok tree) ↔ ConflictFree procedures.keys) ∧
    (∀ tree, Tree.ofProcedures procedures = .ok tree → tree.Nests procedures) ∧
    ∀ failure, Tree.ofProcedures procedures = .error failure →
      FirstConflict procedures failure := by
  rcases ofProcedures_run procedures distinct with ⟨free, tree, built, holds⟩ |
    ⟨failure, failed, first⟩
  · refine ⟨⟨fun _ => free, fun _ => ⟨tree, built⟩⟩, ?_, ?_⟩
    · intro other same
      rw [built] at same
      cases same
      exact holds.nests
    · intro failure failed
      rw [built] at failed
      cases failed
  · refine ⟨⟨?_, fun free => absurd free first.not_conflictFree⟩, ?_, ?_⟩
    · rintro ⟨tree, built⟩
      rw [failed] at built
      cases built
    · intro tree built
      rw [failed] at built
      cases built
    · intro other same
      rw [failed] at same
      cases same
      exact first

/-- Two procedures of one namespace with another between them, and a path that leads through one. -/
theorem nested_and_refused :
    (∃ tree, Tree.ofProcedures
        [("a.b.three", ⟨.query, [], none, {}⟩), ("hello", ⟨.mutation, [], none, {}⟩),
          ("a.b.four", ⟨.query, [], none, {}⟩)] = .ok tree ∧
      tree.Nests [("a.b.three", ⟨.query, [], none, {}⟩), ("hello", ⟨.mutation, [], none, {}⟩),
          ("a.b.four", ⟨.query, [], none, {}⟩)]) ∧
    FirstConflict
      [("a.b", ⟨.query, [], none, {}⟩), ("c", ⟨.query, [], none, {}⟩),
        ("a.b.d", ⟨.query, [], none, {}⟩), ("a..e", ⟨.query, [], none, {}⟩)]
      (.pathConflict "a.b.d") := by
  refine ⟨⟨_, rfl, ?_⟩, ?_⟩
  · exact (ofProcedures_spec _ (by decide)).2.1 _ rfl
  · exact (ofProcedures_spec _ (by decide)).2.2 _ rfl

end RouterClient.Route
