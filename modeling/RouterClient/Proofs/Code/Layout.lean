import RouterClient.Proofs.Code.Comments
import RouterClient.Proofs.Code.Spacing

/-! # Texts that are laid out

A layout changes the white space of a text and nothing else.  Read again, it has the lines of the text that
are not blank, in their order, each behind a margin, and normalized blank lines between them.  Levels are
counted from the lines that are not blank, and these are the same when the layout is made again: a text that
is laid out is its own layout.
-/

namespace RouterClient.Text

/-- The characters of a text that are not blank. -/
def visible (cs : List Char) : List Char :=
  cs.filter fun c => !isBlank c

section

variable {c mark : Char} {cs start : List Char}

theorem trimEnd_prefix (cs : List Char) : trimEnd cs <+: cs := by
  rw [trimEnd, ← List.reverse_suffix, List.reverse_reverse]
  exact List.dropWhile_suffix _

theorem head?_trim (first : (trim cs).head? = some c) : isBlank c = false := by
  obtain ⟨ending, split⟩ := trimEnd_prefix (trimStart cs)
  have kept := List.head?_dropWhile_not isBlank cs
  rw [← trimStart, ← split, List.head?_append_of_ne_nil] at kept
  · rw [trim] at first
    rw [first] at kept
    exact kept
  · rintro empty
    rw [trim, empty] at first
    cases first

theorem trim_trim (cs : List Char) : trim (trim cs) = trim cs := by
  have start : trimStart (trim cs) = trim cs := by
    cases split : trim cs with
    | nil => rfl
    | cons c rest =>
        have shown : isBlank c = false := head?_trim (by rw [split]; rfl)
        exact List.dropWhile_cons_of_neg (by simp [shown])
  rw [trim, start]
  exact trimEnd_of_last fun _ last => getLast?_trim last

/-- Blanks before a text are trimmed away with its own. -/
theorem trim_append_of_blank (blank : ∀ c ∈ start, isBlank c = true) (cs : List Char) :
    trim (start ++ cs) = trim cs := by
  rw [trim, trimStart, List.dropWhile_append_of_pos blank, trim, trimStart]

theorem visible_append (first second : List Char) :
    visible (first ++ second) = visible first ++ visible second :=
  List.filter_append _ _

theorem visible_of_blank (blank : ∀ c ∈ cs, isBlank c = true) : visible cs = [] :=
  List.filter_eq_nil_iff.mpr fun c listed => by simp [blank c listed]

theorem visible_trimStart (cs : List Char) : visible (trimStart cs) = visible cs := by
  have blank : ∀ c ∈ cs.takeWhile isBlank, isBlank c = true :=
    fun c listed => List.all_eq_true.mp List.all_takeWhile c listed
  conv => rhs; rw [← List.takeWhile_append_dropWhile (p := isBlank) (l := cs)]
  rw [visible_append, visible_of_blank blank, List.nil_append, trimStart]

theorem visible_trim (cs : List Char) : visible (trim cs) = visible cs := by
  have reverse (cs : List Char) : visible cs.reverse = (visible cs).reverse := List.filter_reverse
  have ending (cs : List Char) : visible (trimEnd cs) = visible cs := by
    rw [trimEnd, reverse, ← trimStart, visible_trimStart, reverse, List.reverse_reverse]
  rw [trim, ending, visible_trimStart]

theorem visible_pieces (blank : isBlank mark = true) (cs : List Char) :
    (pieces mark cs).flatMap visible = visible cs := by
  induction cs with
  | nil => rfl
  | cons c rest ih =>
      by_cases marks : c = mark
      · subst marks
        have gone : visible (c :: rest) = visible rest := List.filter_cons_of_neg (by simp [blank])
        rw [pieces_cons_mark, List.flatMap_cons, ih, gone]
        rfl
      · obtain ⟨piece, more, found, grown⟩ := pieces_cons_of_ne rest marks
        rw [found, List.flatMap_cons] at ih
        rw [grown, List.flatMap_cons]
        have first (cs : List Char) : visible (c :: cs) = visible [c] ++ visible cs :=
          visible_append [c] cs
        rw [first, first rest, ← ih, List.append_assoc]

theorem visible_dropCarriageReturn (line : List Char) :
    visible (dropCarriageReturn line) = visible line := by
  unfold dropCarriageReturn
  split
  · next last =>
    obtain ⟨start, rfl⟩ := List.getLast?_eq_some_iff.mp last
    have gone : visible ['\r'] = [] := by decide
    rw [List.dropLast_concat, visible_append, gone, List.append_nil]
  · rfl

/-- What ends a line is blank. -/
theorem visible_lines (cs : List Char) : (lines cs).flatMap visible = visible cs := by
  have kept (ps : List (List Char)) : (linesOfPieces ps).flatMap visible = ps.flatMap visible := by
    induction ps with
    | nil => rfl
    | cons piece more ih =>
        cases more with
        | nil =>
            rw [linesOfPieces]
            split
            · next empty =>
              rw [List.isEmpty_iff.mp empty]
              rfl
            · rfl
        | cons second others =>
            have parts : linesOfPieces (piece :: second :: others) =
                dropCarriageReturn piece :: linesOfPieces (second :: others) := rfl
            rw [parts, List.flatMap_cons, ih, visible_dropCarriageReturn]
            rfl
  rw [lines, kept, visible_pieces (by decide)]

end

end RouterClient.Text

namespace RouterClient.Code

/-- The lines of a text, without the blanks at their ends. -/
def trimmedLines (text : String) : List (List Char) :=
  (Text.lines text.toList).map Text.trim

/-- A text that is laid out: all of its lines end in a line feed, each of them stands behind the margin of its
level, and its blank lines are empty and normalized. -/
structure LaidOut (text : String) : Prop where
  ended : Lines.text ((Text.lines text.toList).map String.ofList) = text
  indented : Text.lines text.toList = margined 0 (trimmedLines text)
  tidy : Tidy (trimmedLines text)

section

variable {level : Nat} {before : Option (List Char)} {gap : Bool} {line : List Char}
  {rows : List (List Char)}

theorem trim_margin (level : Nat) (line : List Char) :
    Text.trim (margin level ++ line) = Text.trim line := by
  refine Text.trim_append_of_blank (fun c listed => ?_) line
  rw [List.eq_of_mem_replicate listed]
  rfl

/-- Without their margins, lines are as they were before. -/
theorem map_trim_margined (trimmed : ∀ line ∈ rows, Text.trim line = line) :
    (margined level rows).map Text.trim = rows := by
  induction rows generalizing level with
  | nil => rfl
  | cons line rest ih =>
      obtain ⟨first, later⟩ := List.forall_mem_cons.mp trimmed
      by_cases empty : line = []
      · rw [empty, margined, if_pos List.isEmpty_nil, List.map_cons, ih later, Text.trim_nil]
      · rw [margined_cons empty, List.map_cons, trim_margin, first, ih later]

theorem mem_spaceOut (listed : line ∈ spaceOut before gap rows) : line = [] ∨ line ∈ rows := by
  by_cases empty : line = []
  · exact .inl empty
  · have kept : line ∈ written (spaceOut before gap rows) :=
      List.mem_filter.mpr ⟨listed, by simpa using empty⟩
    rw [written_spaceOut] at kept
    exact .inr (List.mem_of_mem_filter kept)

/-- Read again, a layout has the lines of the text as it has spaced them out. -/
theorem trimmedLines_indent (source : String) :
    trimmedLines (indent source) = spaceOut none false (trimmedLines source) := by
  have trimmed : ∀ line ∈ spaceOut none false (trimmedLines source), Text.trim line = line := by
    intro line listed
    rcases mem_spaceOut listed with rfl | listed
    · exact Text.trim_nil
    · obtain ⟨raw, _, rfl⟩ := List.mem_map.mp listed
      exact Text.trim_trim raw
  rw [trimmedLines, lines_indent, layOut_eq]
  exact map_trim_margined trimmed

/-- A layout is written from the lines of its text alone. -/
theorem indent_eq (source : String) :
    indent source =
      Lines.text ((margined 0 (spaceOut none false (trimmedLines source))).map String.ofList) := by
  rw [indent, ← trimmedLines, layOut_eq]

theorem visible_trimmedLines (text : String) :
    (written (trimmedLines text)).flatMap Text.visible = Text.visible text.toList := by
  have blank (rows : List (List Char)) : (written rows).flatMap Text.visible = rows.flatMap Text.visible := by
    induction rows with
    | nil => rfl
    | cons line rest ih =>
        by_cases empty : line = []
        · rw [empty]
          exact ih
        · rw [written_cons empty, List.flatMap_cons, ih, List.flatMap_cons]
  rw [blank, trimmedLines, List.flatMap_map, ← Text.visible_lines]
  exact congrArg List.flatten (List.map_congr_left fun line _ => Text.visible_trim line)

/-! ## Stability -/

theorem indent_laidOut (source : String) : LaidOut (indent source) where
  ended := by rw [lines_indent, indent]
  indented := by rw [lines_indent, layOut_eq, trimmedLines_indent]; rfl
  tidy := by
    rw [trimmedLines_indent]
    exact spaceOut_tidy _

/-- A text that is laid out is its own layout. -/
theorem LaidOut.indent_eq {text : String} (laid : LaidOut text) : indent text = text := by
  rw [Code.indent_eq, spaceOut_of_tidy laid.tidy, ← laid.indented, laid.ended]

end

/-- A layout loses no line and adds none but blank ones: the lines that are not blank are those of the text,
trimmed, and all characters but blanks are those of the text.  No blank line of a layout is its first or last,
nor stands next to another one, below a line that ends in an opening brace or above a line that starts with a
closing one.  Two lines with nothing but blank lines between them are parted by a blank line if and only if
the text has one there and neither brace is in the way.  Blank lines are empty, and the other ones stand behind a
multiple of four spaces.  A closing brace that starts a line, which takes its level off before the line, is one
of those that are counted for the levels after it. -/
theorem indent_normalizes (source : String) :
    written (trimmedLines (indent source)) = written (trimmedLines source) ∧
    Text.visible (indent source).toList = Text.visible source.toList ∧
    Tidy (trimmedLines (indent source)) ∧
    (∀ first above blanks below rest,
      trimmedLines source = first ++ above :: (blanks ++ below :: rest) →
      above ≠ [] → below ≠ [] → (∀ line ∈ blanks, line = []) →
      ∃ first' blanks' rest',
        trimmedLines (indent source) = first' ++ above :: (blanks' ++ below :: rest') ∧
        written first' = written first ∧ written rest' = written rest ∧
        (blanks' = [] ∨ blanks' = [[]]) ∧
        (blanks' = [[]] ↔ blanks ≠ [] ∧ opensBlock above = false ∧ closesBlock below = false)) ∧
    (∀ line ∈ Text.lines (indent source).toList,
      line = [] ∨ Text.trim line ≠ [] ∧
        ∃ level, line = List.replicate (4 * level) ' ' ++ Text.trim line) ∧
    ∀ line : List Char, (if closesBlock line then 1 else 0) ≤ (countBraces line).closing := by
  have lines : written (trimmedLines (indent source)) = written (trimmedLines source) := by
    rw [trimmedLines_indent, written_spaceOut]
  refine ⟨lines, ?_, (indent_laidOut source).tidy, ?_, ?_, leading_le_closing⟩
  · rw [← visible_trimmedLines, lines, visible_trimmedLines]
  · intro first above blanks below rest split upper lower blank
    obtain ⟨first', same, spaced⟩ := spaceOut_between none false first rest upper lower blank
    rw [trimmedLines_indent, split, spaced]
    refine ⟨first', _, _, rfl, same, written_spaceOut _ _ _, ?_, ?_⟩
    · split
      · exact .inr rfl
      · exact .inl rfl
    · simp [keepsBlank]
  · intro line listed
    rw [lines_indent] at listed
    rcases mem_layOut listed with rfl | ⟨level, row, found, full, rfl⟩
    · exact .inl rfl
    · obtain ⟨raw, _, rfl⟩ := List.mem_map.mp found
      refine .inr ⟨by rwa [trim_margin, Text.trim_trim], level, ?_⟩
      rw [trim_margin, Text.trim_trim]
      rfl

/-- In a block, two blank lines come down to one, and the line below them is indented. -/
theorem indent_normalizes_block :
    (∃ first blanks rest,
      trimmedLines (indent "f \x7b\na\n\n\n\tb") = first ++ ['a'] :: (blanks ++ ['b'] :: rest) ∧
        blanks = [[]]) ∧
    ∃ level, "    b".toList = List.replicate (4 * level) ' ' ++ ['b'] := by
  obtain ⟨_, _, _, parted, margins, _⟩ := indent_normalizes "f \x7b\na\n\n\n\tb"
  have split : trimmedLines "f \x7b\na\n\n\n\tb" =
      [['f', ' ', '\x7b']] ++ ['a'] :: ([[], []] ++ ['b'] :: []) := by decide
  constructor
  · obtain ⟨first, blanks, rest, found, _, _, _, kept⟩ :=
      parted _ _ _ _ _ split (by decide) (by decide) (by decide)
    exact ⟨first, blanks, rest, found, kept.mpr (by decide)⟩
  · rcases margins "    b".toList (by decide) with empty | ⟨_, level, behind⟩
    · cases empty
    · exact ⟨level, behind⟩

/-- Laid out twice is laid out once, and the texts that a layout leaves alone are those that are laid out. -/
theorem indent_indent (source : String) :
    indent (indent source) = indent source ∧ (indent source = source ↔ LaidOut source) := by
  refine ⟨(indent_laidOut source).indent_eq, fun same => ?_, LaidOut.indent_eq⟩
  exact same ▸ indent_laidOut source

end RouterClient.Code
