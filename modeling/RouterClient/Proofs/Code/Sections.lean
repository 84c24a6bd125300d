import RouterClient.Proofs.Code.Layout

/-! # Sections of a laid out text

The layout of some lines looks at what stands before them in three ways only: the level that is reached, the
last line that is not blank, and whether blank lines follow that line.  So a section that comes back to level
zero is laid out on its own, and what follows it as if it stood at the start of a text, with at most one blank
line in between.
-/

namespace RouterClient.Text

section

variable {cs ending : List Char}

theorem trimEnd_append_of_blank (blank : ∀ c ∈ ending, isBlank c = true) (cs : List Char) :
    trimEnd (cs ++ ending) = trimEnd cs := by
  have reversed : ∀ c ∈ ending.reverse, isBlank c = true := fun c listed =>
    blank c (List.mem_reverse.mp listed)
  rw [trimEnd, List.reverse_append, List.dropWhile_append_of_pos reversed, trimEnd]

/-- A carriage return at the end of a line is trimmed away with the blanks around it. -/
theorem trim_dropCarriageReturn (line : List Char) : trim (dropCarriageReturn line) = trim line := by
  have blank : ∀ c ∈ ['\r'], isBlank c = true := by
    intro c listed
    obtain rfl := List.mem_singleton.mp listed
    rfl
  unfold dropCarriageReturn
  split
  · next last =>
    obtain ⟨start, rfl⟩ := List.getLast?_eq_some_iff.mp last
    rw [List.dropLast_concat, trim, trim, trimStart, trimStart, List.dropWhile_append]
    split
    · next empty =>
      rw [List.isEmpty_iff.mp empty]
      rfl
    · rw [trimEnd_append_of_blank blank]
  · rfl

/-- Cut at every line feed, a text has its lines, and perhaps nothing after the last one. -/
theorem trimmed_pieces (cs : List Char) :
    ∃ blanks : List (List Char), (∀ line ∈ blanks, line = []) ∧
      ((pieces '\n' cs).map dropCarriageReturn).map trim = (lines cs).map trim ++ blanks := by
  have ends (ps : List (List Char)) : ∃ blanks : List (List Char), (∀ line ∈ blanks, line = []) ∧
      (ps.map dropCarriageReturn).map trim = (linesOfPieces ps).map trim ++ blanks := by
    induction ps with
    | nil => exact ⟨[], by simp, rfl⟩
    | cons piece more ih =>
        cases more with
        | nil =>
            rw [linesOfPieces]
            split
            · next empty =>
              rw [List.isEmpty_iff.mp empty]
              exact ⟨[[]], by simp, rfl⟩
            · exact ⟨[], by simp, by simp [trim_dropCarriageReturn]⟩
        | cons second others =>
            obtain ⟨blanks, blank, same⟩ := ih
            refine ⟨blanks, blank, ?_⟩
            rw [List.map_cons, List.map_cons, same]
            rfl
  exact ends _

end

end RouterClient.Text

namespace RouterClient.Code

/-- The level that the layout has reached at the end of a text. -/
def endLevel (text : String) : Nat :=
  levelPast 0 (trimmedLines text)

/-- What the layout puts between a text and a declaration that follows it after a blank line: that blank
line, unless nothing stands above it or the last line above it ends in an opening brace. -/
def parting (text : String) : String :=
  match (written (trimmedLines text)).getLast? with
  | some last => if opensBlock last then "" else "\n"
  | none => ""

/-- Whether a text starts, after blanks, with something else than a closing brace. -/
def fronts (cs : List Char) : Bool :=
  (Text.visible cs).head?.any (· != '\x7d')

section

variable {level : Nat} {before : Option (List Char)} {gap : Bool} {above below : String}
  {first second rows blanks : List (List Char)} {line : List Char} {cs : List Char}

/-! ## What the layout carries on -/

theorem margined_append (level : Nat) (first second : List (List Char)) :
    margined level (first ++ second) =
      margined level first ++ margined (levelPast level first) second := by
  induction first generalizing level with
  | nil => rfl
  | cons line rest ih =>
      have past : levelPast level (line :: rest) = levelPast (levelAfter level line) rest := rfl
      by_cases empty : line = []
      · rw [past, empty, levelAfter_nil, List.cons_append, margined, if_pos List.isEmpty_nil, ih, margined,
          if_pos List.isEmpty_nil, List.cons_append]
      · rw [past, List.cons_append, margined_cons empty, ih, margined_cons empty, List.cons_append]

/-- Blank lines leave the level as it is. -/
theorem levelPast_spaceOut (level : Nat) (before : Option (List Char)) (gap : Bool)
    (rows : List (List Char)) : levelPast level (spaceOut before gap rows) = levelPast level rows := by
  induction rows generalizing level before gap with
  | nil => rfl
  | cons line rest ih =>
      have past (level : Nat) (rest : List (List Char)) :
          levelPast level (line :: rest) = levelPast (levelAfter level line) rest := rfl
      by_cases empty : line = []
      · subst empty
        rw [past, levelAfter_nil]
        exact ih level before true
      · have parted (blank : Bool) : levelPast level (if blank then [[]] else []) = level := by
          cases blank <;> rfl
        rw [spaceOut_cons empty, levelPast_append, parted, past, past, ih]

/-- Some lines are laid out as if the lines before them were not there, but for the level that these have
reached, the last of them that is not blank, and the blank lines at their end. -/
theorem layOut_append (level : Nat) (before : Option (List Char)) (gap : Bool)
    (first second : List (List Char)) :
    layOut level before gap (first ++ second) =
      layOut level before gap first ++
        layOut (levelPast level first) (lastWritten before first) (endsBlank gap first) second := by
  rw [layOut_eq, spaceOut_append, margined_append, levelPast_spaceOut, ← layOut_eq, ← layOut_eq]

theorem lastWritten_eq (before : Option (List Char)) (rows : List (List Char)) :
    lastWritten before rows = (written rows).getLast?.or before := by
  induction rows generalizing before with
  | nil => rfl
  | cons line rest ih =>
      have step : lastWritten before (line :: rest) =
          lastWritten (if line.isEmpty then before else some line) rest := rfl
      by_cases empty : line = []
      · rw [step, ih, empty]
        rfl
      · rw [step, if_neg (by simpa using empty), ih, written_cons empty]
        cases found : (written rest).getLast? <;> simp [List.getLast?_cons, found]

theorem exists_of_head?_written (front : (written rows).head? = some line) :
    ∃ blanks rest, rows = blanks ++ line :: rest ∧ line ≠ [] ∧ ∀ above ∈ blanks, above = [] := by
  induction rows with
  | nil => cases front
  | cons row rest ih =>
      by_cases empty : row = []
      · subst empty
        obtain ⟨blanks, later, split, full, blank⟩ := ih front
        exact ⟨[] :: blanks, later, by rw [split, List.cons_append], full, by simpa using blank⟩
      · rw [written_cons empty, List.head?_cons, Option.some.injEq] at front
        subst front
        exact ⟨[], rest, rfl, empty, by simp⟩

theorem layOut_blanks (blank : ∀ line ∈ blanks, line = []) (rows : List (List Char)) :
    layOut level before gap (blanks ++ rows) = layOut level before (gap || !blanks.isEmpty) rows := by
  rw [layOut_eq, spaceOut_blanks blank, ← layOut_eq]

/-- At level zero, and below a blank line, lines are laid out as at the start of a text. -/
theorem layOut_below_blank (front : (written rows).head? = some line) (closes : closesBlock line = false)
    (before : Option (List Char)) :
    layOut 0 before true rows =
      (if before.any (fun above => !opensBlock above) then [[]] else []) ++ layOut 0 none false rows := by
  obtain ⟨blanks, rest, rfl, full, blank⟩ := exists_of_head?_written front
  have top (gap : Bool) : layOut 0 none gap (line :: rest) = layOut 0 none false (line :: rest) := by
    rw [layOut_eq, layOut_eq, spaceOut_cons full, spaceOut_cons full, keepsBlank, Bool.and_false,
      Bool.and_false]
  rw [layOut_blanks blank, layOut_blanks blank, top, Bool.true_or, layOut_eq, layOut_eq,
    spaceOut_cons full, spaceOut_cons full, Bool.true_and, Bool.false_and, if_neg Bool.false_ne_true,
    List.nil_append]
  cases before with
  | none => rfl
  | some above =>
      cases opens : opensBlock above
      · simp only [keepsBlank, opens, closes, Option.any_some]
        rfl
      · simp only [keepsBlank, opens, Option.any_some]
        rfl

/-! ## Sections -/

/-- Two texts with a blank line in between have the lines of the one, blank ones, and the lines of the other. -/
theorem trimmedLines_section (above below : String) :
    ∃ blanks : List (List Char), (∀ line ∈ blanks, line = []) ∧
      trimmedLines (above ++ "\n\n" ++ below) = trimmedLines above ++ (blanks ++ [] :: trimmedLines below) := by
  obtain ⟨blanks, blank, same⟩ := Text.trimmed_pieces above.toList
  refine ⟨blanks, blank, ?_⟩
  have split : (above ++ "\n\n" ++ below).toList =
      above.toList ++ '\n' :: ([] ++ '\n' :: below.toList) := by
    simp [String.toList_append]
  rw [trimmedLines, split, Text.lines_append_feed, Text.lines_append_feed, List.map_append, same,
    List.append_assoc]
  rfl

/-- A text that comes back to level zero is laid out on its own, and so is what follows it. -/
theorem indent_section (returned : endLevel above = 0)
    (front : (written (trimmedLines below)).head? = some line) (closes : closesBlock line = false) :
    indent (above ++ "\n\n" ++ below) = indent above ++ parting above ++ indent below := by
  obtain ⟨blanks, blank, split⟩ := trimmedLines_section above below
  have gone (gap : Bool) (before : Option (List Char)) :
      layOut 0 before gap (blanks ++ [] :: trimmedLines below) =
        layOut 0 before true (trimmedLines below) := by
    rw [layOut_blanks blank]
    rfl
  have level : levelPast 0 (trimmedLines above) = 0 := returned
  have parted : Lines.text ((if (written (trimmedLines above)).getLast?.any (fun above => !opensBlock above)
      then [[]] else []).map String.ofList) = parting above := by
    unfold parting
    cases (written (trimmedLines above)).getLast? with
    | none => rfl
    | some last => cases opens : opensBlock last <;> simp [opens, Lines.text]
  rw [indent, ← trimmedLines, split, layOut_append, level, gone, lastWritten_eq, Option.or_none,
    layOut_below_blank front closes, List.map_append, Lines.text_append, List.map_append,
    Lines.text_append, parted, indent, ← trimmedLines, indent, ← trimmedLines, String.append_assoc]

/-! ## The front of a text -/

theorem fronts_append (front : fronts cs = true) (more : List Char) : fronts (cs ++ more) = true := by
  unfold fronts at *
  rw [Text.visible_append]
  cases shown : Text.visible cs with
  | nil => simp [shown] at front
  | cons c rest => simpa [shown] using front

/-- The first line of a text that is not blank starts with the first character that is not blank. -/
theorem closesBlock_of_fronts {text : String} (front : fronts text.toList = true) :
    ∃ line, (written (trimmedLines text)).head? = some line ∧ closesBlock line = false := by
  unfold fronts at front
  rw [← visible_trimmedLines] at front
  cases rows : written (trimmedLines text) with
  | nil => simp [rows] at front
  | cons line rest =>
      refine ⟨line, rfl, ?_⟩
      have listed : line ∈ written (trimmedLines text) := by simp [rows]
      obtain ⟨inside, full⟩ := List.mem_filter.mp listed
      obtain ⟨raw, _, trimmed⟩ := List.mem_map.mp inside
      cases spelled : line with
      | nil => simp [spelled] at full
      | cons c more =>
          have first : (Text.trim raw).head? = some c := by
            rw [trimmed, spelled]
            rfl
          have shown := Text.head?_trim first
          have visible : Text.visible (c :: more) = c :: Text.visible more :=
            List.filter_cons_of_pos (by simp [shown])
          rw [rows, List.flatMap_cons, spelled, visible, List.cons_append, List.head?_cons,
            Option.any_some, bne_iff_ne] at front
          simpa [closesBlock] using front

end

end RouterClient.Code
