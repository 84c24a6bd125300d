import RouterClient.Proofs.Code.Reading

/-! # Balanced texts

A text is laid out by the braces that are open before each of its lines.  Where a declaration or a class
is balanced, every brace that its lines close is one that they have opened, so that the level is never
cut off at zero and is afterwards what it was before.
-/

namespace RouterClient.Code

/-- The braces of some lines together. -/
def braces : List (List Char) → Braces
  | [] => ⟨0, 0⟩
  | line :: more =>
    let own := countBraces line
    let others := braces more
    ⟨own.opening + others.opening, own.closing + others.closing⟩

/-- What a line closes before anything else. -/
def leading (line : List Char) : Nat :=
  if closesBlock line then 1 else 0

/-- A line closes no more than is open: neither the brace it starts with nor the others. -/
structure Holds (level : Nat) (line : List Char) : Prop where
  front : leading line ≤ level
  rest : (countBraces line).closing - leading line ≤ levelAt level line + (countBraces line).opening

/-- Lines that are laid out from one level to another, without the level being cut off at zero. -/
inductive Runs : (level : Nat) → List (List Char) → (last : Nat) → Prop where
  | done {level} : Runs level [] level
  | blank {level line rest last} :
      line.isEmpty = true → Runs level rest last → Runs level (line :: rest) last
  | line {level line rest last} :
      line.isEmpty = false → Holds level line → Runs (levelAfter level line) rest last →
      Runs level (line :: rest) last

section

variable {level last middle : Nat} {line : List Char} {first second lines : List (List Char)}

theorem leading_le_closing (line : List Char) : leading line ≤ (countBraces line).closing := by
  unfold leading
  split
  · next closes => exact closing_pos_of_closesBlock closes
  · exact Nat.zero_le _

/-- Where nothing is cut off, the level after a line is what the braces say. -/
theorem Holds.levelAfter_add (holds : Holds level line) :
    levelAfter level line + (countBraces line).closing = level + (countBraces line).opening := by
  obtain ⟨front, rest⟩ := holds
  have counted := leading_le_closing line
  have own : levelAt level line + leading line = level := by
    unfold levelAt leading at *
    split
    · next closes =>
      rw [if_pos closes] at front
      omega
    · rfl
  have after : levelAfter level line = levelAt level line + (countBraces line).opening -
      ((countBraces line).closing - leading line) := rfl
  omega

/-- A line that starts with something else than a closing brace. -/
theorem Holds.of_front (front : closesBlock line = false)
    (few : (countBraces line).closing ≤ level + (countBraces line).opening) : Holds level line where
  front := by simp [leading, front]
  rest := by simpa [leading, levelAt, front] using few

namespace Runs

theorem append (before : Runs level first middle) (after : Runs middle second last) :
    Runs level (first ++ second) last := by
  induction before with
  | done => exact after
  | blank empty _ ih => exact .blank empty (ih after)
  | line full holds _ ih => exact .line full holds (ih after)

theorem split (runs : Runs level (first ++ second) last) :
    ∃ middle, Runs level first middle ∧ Runs middle second last := by
  induction first generalizing level with
  | nil => exact ⟨level, .done, runs⟩
  | cons line more ih =>
      cases runs with
      | blank empty rest =>
          obtain ⟨middle, before, after⟩ := ih rest
          exact ⟨middle, .blank empty before, after⟩
      | line full holds rest =>
          obtain ⟨middle, before, after⟩ := ih rest
          exact ⟨middle, .line full holds before, after⟩

/-- The level after some lines is what their braces say. -/
theorem add_closing (runs : Runs level lines last) :
    last + (braces lines).closing = level + (braces lines).opening := by
  induction runs with
  | done => rfl
  | blank empty _ ih =>
      obtain rfl := List.isEmpty_iff.mp empty
      have none : countBraces [] = ⟨0, 0⟩ := rfl
      simpa [braces, none] using ih
  | line _ holds _ ih =>
      have own := holds.levelAfter_add
      simp only [braces]
      omega

/-- What follows the lines is laid out from the level after them. -/
theorem layOut_append (runs : Runs level lines last) (before : Option (List Char)) (gap : Bool)
    (more : List (List Char)) :
    ∃ laid before' gap', layOut level before gap (lines ++ more) =
      laid ++ layOut last before' gap' more := by
  induction runs generalizing before gap with
  | done => exact ⟨[], before, gap, rfl⟩
  | blank empty _ ih =>
      obtain ⟨laid, before', gap', same⟩ := ih before true
      refine ⟨laid, before', gap', ?_⟩
      rw [List.cons_append, layOut, if_pos empty, same]
  | @line level line rest last full _ _ ih =>
      obtain ⟨laid, before', gap', same⟩ := ih (some line) false
      have written : ¬ line.isEmpty = true := by simp [full]
      simp only [List.cons_append, layOut, if_neg written, same]
      split
      · exact ⟨_ :: _ :: laid, before', gap', rfl⟩
      · exact ⟨_ :: laid, before', gap', rfl⟩

end Runs

end

/-- A balanced text: no prefix of its lines closes more braces than it opens, as the layout counts them,
and all lines together close as many as they open.  So the layout of the text, from level zero, never
cuts the level off, and whatever follows the text is laid out from level zero again. -/
structure Balanced (text : String) : Prop where
  prefixes : ∀ n, let lines := ((Text.lines text.toList).map Text.trim).take n
    (braces lines).closing ≤ (braces lines).opening
  whole : let lines := (Text.lines text.toList).map Text.trim
    (braces lines).opening = (braces lines).closing
  runs : Runs 0 ((Text.lines text.toList).map Text.trim) 0
  resumes : ∀ more, ∃ laid before gap,
    layOut 0 none false ((Text.lines text.toList).map Text.trim ++ more) =
      laid ++ layOut 0 before gap more

theorem Balanced.of_runs {text : String} (runs : Runs 0 ((Text.lines text.toList).map Text.trim) 0) :
    Balanced text where
  prefixes n := by
    rw [← List.take_append_drop n ((Text.lines text.toList).map Text.trim)] at runs
    obtain ⟨middle, before, _⟩ := runs.split
    have counted := before.add_closing
    simp only
    omega
  whole := by
    have counted := runs.add_closing
    simp only
    omega
  runs := runs
  resumes more := runs.layOut_append none false more

/-- Lines that stay lines when they are written as one text, and that lead from every level back to it. -/
structure Steady (lines : Lines) : Prop where
  whole : ∀ line ∈ lines, Whole line
  runs : ∀ level, Runs level (lines.map fun line => Text.trim line.toList) level

/-- Read again, a text has the lines that it was written with. -/
theorem lines_text {lines : Lines} (whole : ∀ line ∈ lines, Whole line) :
    Text.lines lines.text.toList = lines.map String.toList := by
  induction lines with
  | nil => rfl
  | cons line more ih =>
      obtain ⟨first, later⟩ := List.forall_mem_cons.mp whole
      have written : (Lines.text (line :: more)).toList =
          line.toList ++ '\n' :: (Lines.text more).toList := by
        simp [Lines.text, String.join_cons, String.toList_append]
      rw [written, Text.lines_append first.1 first.2, ih later, List.map_cons]

theorem Steady.balanced {lines : Lines} (steady : Steady lines) : Balanced lines.text := by
  refine .of_runs ?_
  rw [lines_text steady.whole, List.map_map]
  exact steady.runs 0

theorem Neutral.blank : Neutral "" :=
  .of_none ⟨by decide, by decide⟩ rfl

section

variable {head line : String} {lines body more : Lines}

theorem Neutral.holds (neutral : Neutral line) (level : Nat) : Holds level (Text.trim line.toList) := by
  have same := neutral.braces
  rw [← countBraces_trim] at same
  exact .of_front neutral.front (by omega)

theorem Neutral.levelAfter_trim (neutral : Neutral line) (level : Nat) :
    levelAfter level (Text.trim line.toList) = level := by
  have same := neutral.braces
  rw [← countBraces_trim] at same
  have after := (neutral.holds level).levelAfter_add
  omega

namespace Steady

theorem nil : Steady [] :=
  ⟨nofun, fun _ => .done⟩

theorem append (first : Steady lines) (second : Steady more) : Steady (lines ++ more) where
  whole := List.forall_mem_append.mpr ⟨first.whole, second.whole⟩
  runs level := by
    rw [List.map_append]
    exact (first.runs level).append (second.runs level)

theorem single (neutral : Neutral line) : Steady [line] where
  whole := List.forall_mem_singleton.mpr neutral.whole
  runs level := by
    cases empty : (Text.trim line.toList).isEmpty with
    | true => exact .blank empty .done
    | false => exact .line empty (neutral.holds level) ((neutral.levelAfter_trim level).symm ▸ .done)

theorem cons (neutral : Neutral line) (rest : Steady lines) : Steady (line :: lines) :=
  (Steady.single neutral).append rest

theorem of_neutral (neutral : ∀ line ∈ lines, Neutral line) : Steady lines := by
  induction lines with
  | nil => exact .nil
  | cons line more ih =>
      obtain ⟨first, later⟩ := List.forall_mem_cons.mp neutral
      exact .cons first (ih later)

theorem flatMap {α : Type} {items : List α} {f : α → Lines} (each : ∀ item ∈ items, Steady (f item)) :
    Steady (items.flatMap f) := by
  induction items with
  | nil => exact .nil
  | cons item more ih =>
      obtain ⟨first, later⟩ := List.forall_mem_cons.mp each
      exact first.append (ih later)

theorem map {α : Type} {items : List α} {f : α → String} (each : ∀ item ∈ items, Neutral (f item)) :
    Steady (items.map f) := by
  refine of_neutral fun line listed => ?_
  obtain ⟨item, found, rfl⟩ := List.mem_map.mp listed
  exact each item found

theorem afterBlank (steady : Steady lines) : Steady (Lines.afterBlank lines) := by
  unfold Lines.afterBlank
  split
  · exact .nil
  · exact .cons .blank steady

/-- A block is closed where it was opened. -/
theorem block (opens : Opens (head ++ " \x7b")) (inside : Steady body) :
    Steady (Lines.block head body) where
  whole := by
    intro line listed
    rcases List.mem_append.mp listed with listed | listed
    · rcases List.mem_cons.mp listed with rfl | listed
      · exact opens.whole
      · exact inside.whole line listed
    · obtain rfl := List.mem_singleton.mp listed
      exact ⟨by decide, by decide⟩
  runs level := by
    have counted := (countBraces_trim _).trans opens.braces
    have front := not_closesBlock_of_closing (congrArg Braces.closing counted)
    have full : (Text.trim (head ++ " \x7b").toList).isEmpty = false := by
      by_contra empty
      rw [Bool.not_eq_false, List.isEmpty_iff] at empty
      rw [empty] at counted
      cases counted
    have last : Text.trim "\x7d".toList = ['\x7d'] := rfl
    simp only [Lines.block, List.cons_append, List.map_cons, List.map_append, List.map_nil, last]
    generalize Text.trim (head ++ " \x7b").toList = first at counted front full
    have holds : Holds level first := .of_front front (by rw [counted]; exact Nat.zero_le _)
    have opened : levelAfter level first = level + 1 := by
      have after := holds.levelAfter_add
      rwa [counted] at after
    refine .line full holds (opened.symm ▸ (inside.runs (level + 1)).append ?_)
    have closed : levelAfter (level + 1) ['\x7d'] = level := rfl
    refine .line rfl ⟨Nat.succ_le_succ (Nat.zero_le level), Nat.zero_le _⟩ ?_
    rw [closed]
    exact .done

end Steady

end

end RouterClient.Code
