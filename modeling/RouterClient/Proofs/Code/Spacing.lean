import Mathlib.Data.List.Chain
import RouterClient.Code.Layout

/-! # Blank lines of a layout

A layout puts its lines behind margins, and decides which of them are parted by a blank line.  The two go
their own ways: margins depend on no blank line, and blank lines on no margin.  The blank lines that are left
are just where the layout wants them, so that it leaves all of them where they are when it is made again.
-/

namespace RouterClient.Code

/-- Trimmed lines as a layout has them, but for the margins; `gap` says that blank lines stand between the
line `before` and the first of these. -/
def spaceOut (before : Option (List Char)) (gap : Bool) : List (List Char) → List (List Char)
  | [] => []
  | line :: rest =>
    if line.isEmpty then spaceOut before true rest
    else
      let below := spaceOut (some line) false rest
      if gap && keepsBlank before line then [] :: line :: below else line :: below

/-- Trimmed lines behind their margins, from a level; a blank line stays blank. -/
def margined (level : Nat) : List (List Char) → List (List Char)
  | [] => []
  | line :: rest =>
    if line.isEmpty then [] :: margined level rest
    else (margin (levelAt level line) ++ line) :: margined (levelAfter level line) rest

/-- The lines that are not blank. -/
def written (rows : List (List Char)) : List (List Char) :=
  rows.filter fun line => !line.isEmpty

/-- The last line that is not blank, of some lines after the line `before`. -/
def lastWritten (before : Option (List Char)) (rows : List (List Char)) : Option (List Char) :=
  rows.foldl (fun before line => if line.isEmpty then before else some line) before

/-- Whether blank lines stand at the end of some lines, or all the way before them. -/
def endsBlank (gap : Bool) (rows : List (List Char)) : Bool :=
  rows.foldl (fun _ line => line.isEmpty) gap

/-- Lines among which every blank line stands where the layout leaves one: after a line, not twice, and before
a line that goes with the one above. -/
inductive Spaced : (before : Option (List Char)) → List (List Char) → Prop where
  | done {before} : Spaced before []
  | line {before line rest} : line ≠ [] → Spaced (some line) rest → Spaced before (line :: rest)
  | gap {before line rest} :
      line ≠ [] → keepsBlank before line = true → Spaced (some line) rest →
      Spaced before ([] :: line :: rest)

/-- What a line may have above it: no blank line has another one above it, nor a line that opens a block, and
none stands above a line that closes one. -/
def GoesBelow (above below : List Char) : Prop :=
  (above = [] → below ≠ [] ∧ closesBlock below = false) ∧ (below = [] → opensBlock above = false)

/-- Lines whose blank ones are normalized. -/
structure Tidy (rows : List (List Char)) : Prop where
  first : rows.head? ≠ some []
  last : rows.getLast? ≠ some []
  apart : rows.IsChain GoesBelow

section

variable {before : Option (List Char)} {gap : Bool} {level : Nat} {line above below : List Char}
  {first second rest rows blanks : List (List Char)}

theorem spaceOut_cons (full : line ≠ []) (rest : List (List Char)) :
    spaceOut before gap (line :: rest) =
      (if gap && keepsBlank before line then [[]] else []) ++
        line :: spaceOut (some line) false rest := by
  rw [spaceOut, if_neg (by simpa using full)]
  cases gap && keepsBlank before line <;> rfl

theorem margined_cons (full : line ≠ []) (rest : List (List Char)) :
    margined level (line :: rest) =
      (margin (levelAt level line) ++ line) :: margined (levelAfter level line) rest := by
  rw [margined, if_neg (by simpa using full)]

/-- A layout spaces the lines out, and then indents them. -/
theorem layOut_eq (level : Nat) (before : Option (List Char)) (gap : Bool) (rows : List (List Char)) :
    layOut level before gap rows = margined level (spaceOut before gap rows) := by
  induction rows generalizing level before gap with
  | nil => rfl
  | cons line rest ih =>
      by_cases empty : line = []
      · rw [empty]
        exact ih level before true
      · have full : ¬ line.isEmpty = true := by simpa using empty
        rw [spaceOut_cons empty, layOut, if_neg full, ih]
        cases gap && keepsBlank before line
        · rw [if_neg Bool.false_ne_true, if_neg Bool.false_ne_true, List.nil_append,
            margined_cons empty]
        · rw [if_pos rfl, if_pos rfl, List.singleton_append, margined, if_pos List.isEmpty_nil,
            margined_cons empty]

theorem written_append (first second : List (List Char)) :
    written (first ++ second) = written first ++ written second :=
  List.filter_append _ _

theorem written_cons (full : line ≠ []) (rest : List (List Char)) :
    written (line :: rest) = line :: written rest :=
  List.filter_cons_of_pos (by simpa using full)

/-- Only blank lines come and go. -/
theorem written_spaceOut (before : Option (List Char)) (gap : Bool) (rows : List (List Char)) :
    written (spaceOut before gap rows) = written rows := by
  induction rows generalizing before gap with
  | nil => rfl
  | cons line rest ih =>
      by_cases empty : line = []
      · rw [empty]
        exact ih before true
      · have blank : written (if gap && keepsBlank before line then [[]] else []) = [] := by
          split <;> rfl
        rw [spaceOut_cons empty, written_append, blank, List.nil_append, written_cons empty, ih,
          written_cons empty]

theorem spaceOut_append (before : Option (List Char)) (gap : Bool) (first second : List (List Char)) :
    spaceOut before gap (first ++ second) =
      spaceOut before gap first ++ spaceOut (lastWritten before first) (endsBlank gap first) second := by
  induction first generalizing before gap with
  | nil => rfl
  | cons line rest ih =>
      by_cases empty : line = []
      · rw [empty]
        exact ih before true
      · have full : line.isEmpty = false := by simpa using empty
        have last : lastWritten before (line :: rest) = lastWritten (some line) rest := by
          simp only [lastWritten, List.foldl_cons, full, if_neg Bool.false_ne_true]
        have ends : endsBlank gap (line :: rest) = endsBlank false rest := by
          simp only [endsBlank, List.foldl_cons, full]
        rw [List.cons_append, spaceOut_cons empty, ih, spaceOut_cons empty, last, ends,
          List.append_assoc, List.cons_append]

/-- Any number of blank lines is a gap. -/
theorem spaceOut_blanks (blank : ∀ line ∈ blanks, line = []) (rows : List (List Char)) :
    spaceOut before gap (blanks ++ rows) = spaceOut before (gap || !blanks.isEmpty) rows := by
  induction blanks generalizing gap with
  | nil => simp
  | cons line more ih =>
      obtain ⟨rfl, later⟩ := List.forall_mem_cons.mp blank
      have step : spaceOut before gap ([] :: (more ++ rows)) = spaceOut before true (more ++ rows) := rfl
      rw [List.cons_append, step, ih later]
      simp

/-- Between two lines with nothing but blank lines in between, one blank line is left, or none. -/
theorem spaceOut_between (before : Option (List Char)) (gap : Bool) (first rest : List (List Char))
    (upper : above ≠ []) (lower : below ≠ []) (blank : ∀ line ∈ blanks, line = []) :
    ∃ first', written first' = written first ∧
      spaceOut before gap (first ++ above :: (blanks ++ below :: rest)) =
        first' ++ above :: ((if !blanks.isEmpty && keepsBlank (some above) below then [[]] else []) ++
          below :: spaceOut (some below) false rest) := by
  refine ⟨spaceOut before gap first ++
    if endsBlank gap first && keepsBlank (lastWritten before first) above then [[]] else [], ?_, ?_⟩
  · rw [written_append, written_spaceOut]
    split <;> simp [written]
  · rw [spaceOut_append, spaceOut_cons upper, spaceOut_blanks blank, spaceOut_cons lower,
      Bool.false_or, List.append_assoc]

/-! ## Normal form -/

theorem spaceOut_spaced (before : Option (List Char)) (gap : Bool) (rows : List (List Char)) :
    Spaced before (spaceOut before gap rows) := by
  induction rows generalizing before gap with
  | nil => exact .done
  | cons line rest ih =>
      by_cases empty : line = []
      · rw [empty]
        exact ih before true
      · rw [spaceOut_cons empty]
        split
        · next kept =>
          exact .gap empty ((Bool.and_eq_true _ _).mp kept).2 (ih (some line) false)
        · exact .line empty (ih (some line) false)

/-- Lines that are spaced out stay where they are. -/
theorem Spaced.spaceOut_eq (spaced : Spaced before rows) : spaceOut before false rows = rows := by
  induction spaced with
  | done => rfl
  | line full _ ih => rw [spaceOut_cons full, Bool.false_and, if_neg Bool.false_ne_true, ih,
      List.nil_append]
  | @gap before line rest full kept _ ih =>
      have step : spaceOut before false ([] :: line :: rest) = spaceOut before true (line :: rest) := rfl
      rw [step, spaceOut_cons full, kept, Bool.true_and, if_pos rfl, ih, List.singleton_append]

theorem GoesBelow.of_full (upper : above ≠ []) (lower : below ≠ []) : GoesBelow above below :=
  ⟨fun empty => absurd empty upper, fun empty => absurd empty lower⟩

theorem keepsBlank_iff (upper : above ≠ []) (lower : below ≠ []) :
    keepsBlank (some above) below = true ↔ GoesBelow above [] ∧ GoesBelow [] below := by
  simp [keepsBlank, GoesBelow, upper, lower]

theorem getLast?_cons_ne_nil (full : line ≠ []) (rest : List (List Char)) :
    (line :: rest).getLast? ≠ some [] ↔ rest.getLast? ≠ some [] := by
  cases rest with
  | nil => simpa using full
  | cons next more => rw [List.getLast?_cons_cons]

/-- After a line, every blank line goes with the lines above and below it, and none is the last line. -/
theorem Spaced.goesBelow (spaced : Spaced (some above) rows) (upper : above ≠ []) :
    (above :: rows).IsChain GoesBelow ∧ rows.getLast? ≠ some [] := by
  generalize same : some above = before at spaced
  induction spaced generalizing above with
  | done => exact ⟨.singleton _, nofun⟩
  | @line _ line rest full _ ih =>
      obtain ⟨chain, last⟩ := ih full rfl
      exact ⟨.cons_cons (.of_full upper full) chain, (getLast?_cons_ne_nil full rest).mpr last⟩
  | @gap _ line rest full kept _ ih =>
      subst same
      obtain ⟨chain, last⟩ := ih full rfl
      obtain ⟨opens, closes⟩ := (keepsBlank_iff upper full).mp kept
      refine ⟨.cons_cons opens (.cons_cons closes chain), ?_⟩
      rw [List.getLast?_cons_cons]
      exact (getLast?_cons_ne_nil full rest).mpr last

theorem Spaced.of_goesBelow {above : List Char} (upper : above ≠ []) :
    (rows : List (List Char)) → (above :: rows).IsChain GoesBelow → rows.getLast? ≠ some [] →
      Spaced (some above) rows
  | [], _, _ => .done
  | [[]], _, last => absurd rfl last
  | [] :: next :: rest, chain, last => by
      obtain ⟨opens, chain⟩ := List.isChain_cons_cons.mp chain
      obtain ⟨closes, chain⟩ := List.isChain_cons_cons.mp chain
      have full := (closes.1 rfl).1
      rw [List.getLast?_cons_cons] at last
      refine .gap full ((keepsBlank_iff upper full).mpr ⟨opens, closes⟩) ?_
      exact .of_goesBelow full rest chain ((getLast?_cons_ne_nil full rest).mp last)
  | (c :: cs) :: rest, chain, last => by
      have full : c :: cs ≠ [] := List.cons_ne_nil c cs
      obtain ⟨_, chain⟩ := List.isChain_cons_cons.mp chain
      exact .line full (.of_goesBelow full rest chain ((getLast?_cons_ne_nil full rest).mp last))

/-- From the start of a text, lines are spaced out just where they are tidy. -/
theorem spaced_none_iff : Spaced none rows ↔ Tidy rows := by
  constructor
  · intro spaced
    cases spaced with
    | done => exact ⟨nofun, nofun, .nil⟩
    | @line _ line rest full spaced =>
        obtain ⟨chain, last⟩ := spaced.goesBelow full
        exact ⟨by simpa using full, (getLast?_cons_ne_nil full rest).mpr last, chain⟩
    | gap _ kept _ => cases kept
  · intro ⟨first, last, apart⟩
    cases rows with
    | nil => exact .done
    | cons line rest =>
        have full : line ≠ [] := by simpa using first
        exact .line full (.of_goesBelow full rest apart ((getLast?_cons_ne_nil full rest).mp last))

theorem spaceOut_tidy (rows : List (List Char)) : Tidy (spaceOut none false rows) :=
  spaced_none_iff.mp (spaceOut_spaced none false rows)

theorem spaceOut_of_tidy (tidy : Tidy rows) : spaceOut none false rows = rows :=
  (spaced_none_iff.mpr tidy).spaceOut_eq

end

end RouterClient.Code
