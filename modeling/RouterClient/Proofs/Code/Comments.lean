import RouterClient.Proofs.Code.Balance

/-! # Doc comments

A description is written as a doc comment, with slashes before each of its lines.  Swift ends a line at a
carriage return as well: what stands behind one in the midst of a line strays from the comment.  Nothing
else of a description does, and nothing else of it is left in a file that is laid out.
-/

namespace RouterClient.Text

section

variable {mark : Char} {start cs : List Char}

theorem pieces_append (mark : Char) (first second : List Char) :
    pieces mark (first ++ mark :: second) = pieces mark first ++ pieces mark second := by
  induction first with
  | nil => exact pieces_cons_mark mark second
  | cons c more ih =>
      by_cases marks : c = mark
      · rw [marks, List.cons_append, pieces_cons_mark, ih, pieces_cons_mark, List.cons_append]
      · obtain ⟨piece, others, found, grown⟩ := pieces_cons_of_ne (more ++ mark :: second) marks
        obtain ⟨piece', others', found', grown'⟩ := pieces_cons_of_ne more marks
        rw [ih, found', List.cons_append] at found
        obtain ⟨rfl, rfl⟩ := List.cons.inj found
        rw [List.cons_append, grown, grown', List.cons_append]

/-- What stands before the first mark belongs to the first piece. -/
theorem pieces_append_of_free (free : mark ∉ start) (cs : List Char) :
    ∃ piece more, pieces mark cs = piece :: more ∧
      pieces mark (start ++ cs) = (start ++ piece) :: more := by
  induction start with
  | nil =>
      obtain ⟨piece, more, found⟩ := List.exists_cons_of_ne_nil (pieces_ne_nil mark cs)
      exact ⟨piece, more, found, found⟩
  | cons c rest ih =>
      rw [List.mem_cons, not_or] at free
      obtain ⟨piece, more, found, grown⟩ := ih free.2
      obtain ⟨piece', more', found', grown'⟩ := pieces_cons_of_ne (rest ++ cs) (Ne.symm free.1)
      obtain ⟨rfl, rfl⟩ := List.cons.inj (grown.symm.trans found')
      exact ⟨piece, more, found, grown'⟩

theorem linesOfPieces_append (first : List (List Char)) {second : List (List Char)}
    (some : second ≠ []) :
    linesOfPieces (first ++ second) = first.map dropCarriageReturn ++ linesOfPieces second := by
  induction first with
  | nil => rfl
  | cons piece more ih =>
      obtain ⟨next, rest, split⟩ := List.exists_cons_of_ne_nil
        (List.append_ne_nil_of_right_ne_nil more some)
      rw [List.cons_append, split, List.map_cons, List.cons_append, ← ih, split]
      rfl

/-- A line feed ends a line, whatever follows. -/
theorem lines_append_feed (first second : List Char) :
    lines (first ++ '\n' :: second) =
      (pieces '\n' first).map dropCarriageReturn ++ lines second := by
  rw [lines, pieces_append, linesOfPieces_append _ (pieces_ne_nil _ _)]
  rfl

theorem trimEnd_of_last (last : ∀ c ∈ cs.getLast?, isBlank c = false) : trimEnd cs = cs := by
  rw [trimEnd]
  cases split : cs.reverse with
  | nil => simp_all
  | cons c rest =>
      have shown : isBlank c = false := last c (by simp [← List.head?_reverse, split])
      rw [List.dropWhile_cons_of_neg (by simp [shown]), ← split, List.reverse_reverse]

theorem getLast?_trim {c : Char} (last : (trim cs).getLast? = some c) : isBlank c = false :=
  getLast?_trimEnd last

theorem mem_of_mem_trim {c : Char} (listed : c ∈ trim cs) : c ∈ cs :=
  (List.dropWhile_sublist _).subset (mem_of_mem_trimEnd listed)

end

end RouterClient.Text

namespace RouterClient.Code

/-- The slashes that make a line of Swift a doc comment. -/
def slashes : List Char :=
  ['/', '/', '/']

/-- The white space of Swift, but for what ends a line. -/
def isSpace (c : Char) : Bool :=
  c == ' ' || c == '\t' || c == '\x0b' || c == '\x0c' || c == '\x00'

/-- Whether a line of Swift is neither blank nor a doc comment. -/
def isCode (line : List Char) : Bool :=
  let text := line.dropWhile isSpace
  !text.isEmpty && !slashes.isPrefixOf text

/-- The lines of a text as Swift counts them: a line feed ends one, a carriage return, or the two
together. -/
def swiftLines (cs : List Char) : List (List Char) :=
  (Text.lines cs).flatMap (Text.pieces '\r')

/-- The lines of Swift that are neither blank nor doc comments. -/
def codeLines (source : String) : List (List Char) :=
  (swiftLines source.toList).filter isCode

/-- What a description puts behind carriage returns in the midst of its lines. -/
def strays (description : String) : List (List Char) :=
  (Text.lines description.toList).flatMap fun line => (Text.pieces '\r' (Text.trimEnd line)).tail

section

variable {description : String} {line row : List Char}

/-- The doc comment of a line, read as Swift does. -/
theorem pieces_commented (line : List Char) :
    ∃ first, Text.pieces '\r' ("/// ".toList ++ line) =
      ("/// ".toList ++ first) :: (Text.pieces '\r' line).tail := by
  have free : '\r' ∉ "/// ".toList := by decide
  obtain ⟨first, more, found, grown⟩ := Text.pieces_append_of_free free line
  exact ⟨first, by rw [grown, found]; rfl⟩

theorem lines_docComment (description : String) :
    Text.lines (docComment description).text.toList =
      (Text.lines description.toList).map fun line => "/// ".toList ++ Text.trimEnd line := by
  have whole : ∀ line ∈ docComment description, Whole line :=
    fun line listed => (docComment_neutral (some description) line listed).whole
  rw [lines_text whole, docComment, List.map_map]
  refine List.map_congr_left fun line _ => ?_
  simp [String.toList_append]

/-- Every line of a doc comment starts with slashes or strays. -/
theorem mem_swiftLines_docComment (listed : line ∈ swiftLines (docComment description).text.toList) :
    slashes <+: line ∨ line ∈ strays description := by
  rw [swiftLines, lines_docComment, List.flatMap_map] at listed
  obtain ⟨written, found, inside⟩ := List.mem_flatMap.mp listed
  obtain ⟨first, split⟩ := pieces_commented (Text.trimEnd written)
  rw [split] at inside
  rcases List.mem_cons.mp inside with rfl | inside
  · exact .inl ⟨' ' :: first, rfl⟩
  · exact .inr (List.mem_flatMap.mpr ⟨written, found, inside⟩)

theorem strays_subset (description : String) :
    strays description ⊆ swiftLines (docComment description).text.toList := by
  intro line listed
  obtain ⟨written, found, inside⟩ := List.mem_flatMap.mp listed
  obtain ⟨first, split⟩ := pieces_commented (Text.trimEnd written)
  rw [swiftLines, lines_docComment, List.flatMap_map]
  refine List.mem_flatMap.mpr ⟨written, found, ?_⟩
  rw [split]
  exact .tail _ inside

/-- A doc comment is one as far as Swift reads it if and only if all strays are empty or comments. -/
theorem docComment_iff (description : String) :
    (∀ line ∈ swiftLines (docComment description).text.toList, line = [] ∨ slashes <+: line) ↔
      ∀ line ∈ strays description, line = [] ∨ slashes <+: line := by
  constructor
  · intro all line listed
    exact all line (strays_subset description listed)
  · intro all line listed
    rcases mem_swiftLines_docComment listed with comment | stray
    · exact .inr comment
    · exact all line stray

/-- Only a carriage return that is not at the end of a line lets anything stray. -/
theorem strays_eq_nil
    (ends : ∀ line ∈ Text.lines description.toList, '\r' ∉ Text.trimEnd line) :
    strays description = [] := by
  refine List.flatMap_eq_nil_iff.mpr fun line listed => ?_
  obtain ⟨first, more, found, grown⟩ := Text.pieces_append_of_free (ends line listed) []
  obtain ⟨rfl, rfl⟩ := List.cons.inj found
  rw [List.append_nil] at grown
  rw [grown]
  rfl

end

/-! ## Layout -/

/-- The code of one line that ends at a line feed. -/
def codeOf (row : List Char) : List (List Char) :=
  (Text.pieces '\r' row).filter isCode

/-- The code of trimmed lines that are laid out from a level. -/
def codeFrom (level : Nat) : List (List Char) → List (List Char)
  | [] => []
  | row :: rest => codeOf (margin (levelAt level row) ++ row) ++ codeFrom (levelAfter level row) rest

/-- The level after trimmed lines. -/
def levelPast (level : Nat) (rows : List (List Char)) : Nat :=
  rows.foldl levelAfter level

/-- Lines as the layout takes them in. -/
def rows (lines : Lines) : List (List Char) :=
  (Text.lines lines.text.toList).map Text.trim

section

variable {level : Nat} {before : Option (List Char)} {gap : Bool} {row line : List Char}
  {first second : List (List Char)}

theorem isCode_margin (level : Nat) (line : List Char) : isCode (margin level ++ line) = isCode line := by
  have spaces : ∀ c ∈ margin level, isSpace c = true := by
    intro c listed
    rw [List.eq_of_mem_replicate listed]
    rfl
  rw [isCode, List.dropWhile_append_of_pos spaces, isCode]

theorem codeOf_margin_nil (level : Nat) : codeOf (margin level ++ []) = [] := by
  have free : '\r' ∉ margin level := fun listed => by
    cases List.eq_of_mem_replicate listed
  obtain ⟨piece, more, found, grown⟩ := Text.pieces_append_of_free free []
  obtain ⟨rfl, rfl⟩ := List.cons.inj found
  have blank : isCode [] = false := rfl
  rw [codeOf, grown, List.filter_cons, isCode_margin, blank]
  rfl

theorem levelAfter_nil (level : Nat) : levelAfter level [] = level := rfl

theorem codeFrom_append (level : Nat) (first second : List (List Char)) :
    codeFrom level (first ++ second) =
      codeFrom level first ++ codeFrom (levelPast level first) second := by
  induction first generalizing level with
  | nil => rfl
  | cons row rest ih => rw [List.cons_append, codeFrom, ih, codeFrom, List.append_assoc]; rfl

theorem levelPast_append (level : Nat) (first second : List (List Char)) :
    levelPast level (first ++ second) = levelPast (levelPast level first) second :=
  List.foldl_append

/-- Blank lines come and go in the layout, and are no code. -/
theorem codeOf_layOut (level : Nat) (before : Option (List Char)) (gap : Bool)
    (rows : List (List Char)) :
    (layOut level before gap rows).flatMap codeOf = codeFrom level rows := by
  induction rows generalizing level before gap with
  | nil => rfl
  | cons row rest ih =>
      rw [layOut, codeFrom]
      split
      · next empty =>
        obtain rfl := List.isEmpty_iff.mp empty
        rw [codeOf_margin_nil, levelAfter_nil, List.nil_append]
        exact ih level before true
      · have blank : codeOf [] = [] := rfl
        simp only
        split <;> simp only [List.flatMap_cons, blank, List.nil_append, ih]

theorem mem_layOut {rows : List (List Char)} (listed : line ∈ layOut level before gap rows) :
    line = [] ∨ ∃ level, ∃ row ∈ rows, row ≠ [] ∧ line = margin level ++ row := by
  induction rows generalizing level before gap with
  | nil => cases listed
  | cons row rest ih =>
      have later {level : Nat} {before : Option (List Char)} {gap : Bool}
          (listed : line ∈ layOut level before gap rest) :
          line = [] ∨ ∃ level, ∃ other ∈ row :: rest, other ≠ [] ∧ line = margin level ++ other :=
        (ih listed).imp id fun ⟨level, other, found, rest⟩ => ⟨level, other, .tail _ found, rest⟩
      rw [layOut] at listed
      split at listed
      · exact later listed
      · next full =>
        have here : ∃ level', ∃ other ∈ row :: rest, other ≠ [] ∧
            margin (levelAt level row) ++ row = margin level' ++ other :=
          ⟨_, row, .head _, by simpa using full, rfl⟩
        simp only at listed
        split at listed
        · rcases List.mem_cons.mp listed with rfl | listed
          · exact .inl rfl
          rcases List.mem_cons.mp listed with rfl | listed
          · exact .inr here
          · exact later listed
        · rcases List.mem_cons.mp listed with rfl | listed
          · exact .inr here
          · exact later listed

/-- Read again, a text that has been laid out has the lines of the layout. -/
theorem lines_indent (source : String) :
    Text.lines (indent source).toList =
      layOut 0 none false ((Text.lines source.toList).map Text.trim) := by
  have whole : ∀ line ∈ (layOut 0 none false ((Text.lines source.toList).map Text.trim)).map
      String.ofList, Whole line := by
    intro line listed
    obtain ⟨laid, found, rfl⟩ := List.mem_map.mp listed
    rw [Whole, String.toList_ofList]
    rcases mem_layOut found with rfl | ⟨level, row, row_listed, full, rfl⟩
    · exact ⟨List.not_mem_nil, nofun⟩
    obtain ⟨written, inside, rfl⟩ := List.mem_map.mp row_listed
    constructor
    · intro feed
      rcases List.mem_append.mp feed with feed | feed
      · cases List.eq_of_mem_replicate feed
      · exact Text.feed_not_mem_lines inside (Text.mem_of_mem_trim feed)
    · intro last
      rw [List.getLast?_append_of_ne_nil _ full] at last
      have blank := Text.getLast?_trim last
      cases blank
  have same : String.toList ∘ String.ofList = id := by
    funext cs
    exact String.toList_ofList
  rw [indent, lines_text whole, List.map_map, same, List.map_id]

/-- Laid out, a text has the code of its lines. -/
theorem codeLines_indent (source : String) :
    codeLines (indent source) = codeFrom 0 ((Text.lines source.toList).map Text.trim) := by
  rw [codeLines, swiftLines, lines_indent, ← codeOf_layOut 0 none false, List.filter_flatMap]
  rfl

theorem rows_cons (line : String) (lines : Lines) :
    rows (line :: lines) =
      ((Text.pieces '\n' line.toList).map Text.dropCarriageReturn).map Text.trim ++ rows lines := by
  have written : (Lines.text (line :: lines)).toList = line.toList ++ '\n' :: lines.text.toList := by
    simp [Lines.text, String.join_cons, String.toList_append]
  rw [rows, written, Text.lines_append_feed, List.map_append]
  rfl

theorem rows_append (lines more : Lines) : rows (lines ++ more) = rows lines ++ rows more := by
  induction lines with
  | nil => rfl
  | cons line lines ih => rw [List.cons_append, rows_cons, ih, rows_cons, List.append_assoc]

end

/-! ## Comments among other lines -/

/-- Lines that are others with doc comments added.  The code is that of the others just where nothing strays
from a comment, and there is more of it otherwise. -/
structure Annotates (lines bare : Lines) (kept : Prop) : Prop where
  level : ∀ level, levelPast level (rows lines) = levelPast level (rows bare)
  code : kept → ∀ level, codeFrom level (rows lines) = codeFrom level (rows bare)
  fewer : ∀ level, (codeFrom level (rows bare)).length ≤ (codeFrom level (rows lines)).length
  kept : ∀ level, (codeFrom level (rows lines)).length ≤ (codeFrom level (rows bare)).length → kept

/-- Whether no code strays from the doc comment of a description. -/
def Confined (description : String) : Prop :=
  ∀ line ∈ strays description, isCode line = false

section

variable {lines bare more short : Lines} {kept other : Prop}

namespace Annotates

theorem refl (lines : Lines) : Annotates lines lines True :=
  ⟨fun _ => rfl, fun _ _ => rfl, fun _ => Nat.le_refl _, fun _ _ => trivial⟩

theorem append (first : Annotates lines bare kept) (second : Annotates more short other) :
    Annotates (lines ++ more) (bare ++ short) (kept ∧ other) where
  level level := by
    simp only [rows_append, levelPast_append, first.level, second.level]
  code holds level := by
    simp only [rows_append, codeFrom_append, first.level, first.code holds.1, second.code holds.2]
  fewer level := by
    simp only [rows_append, codeFrom_append, first.level, List.length_append]
    exact Nat.add_le_add (first.fewer level) (second.fewer _)
  kept level few := by
    simp only [rows_append, codeFrom_append, first.level, List.length_append] at few
    have before := first.fewer level
    have after := second.fewer (levelPast level (rows bare))
    exact ⟨first.kept level (by omega), second.kept (levelPast level (rows bare)) (by omega)⟩

theorem congr (annotates : Annotates lines bare kept) (same : kept ↔ other) :
    Annotates lines bare other :=
  propext same ▸ annotates

/-- Other lines before and after. -/
theorem within (before after : Lines) (annotates : Annotates lines bare kept) :
    Annotates (before ++ lines ++ after) (before ++ bare ++ after) kept :=
  (((refl before).append annotates).append (refl after)).congr (by simp)

theorem block (head : String) (annotates : Annotates lines bare kept) :
    Annotates (Lines.block head lines) (Lines.block head bare) kept :=
  annotates.within [head ++ " \x7b"] ["\x7d"]

theorem flatMap {α : Type} (items : List α) {f g : α → Lines} {kept : α → Prop}
    (each : ∀ item ∈ items, Annotates (f item) (g item) (kept item)) :
    Annotates (items.flatMap f) (items.flatMap g) (∀ item ∈ items, kept item) := by
  induction items with
  | nil => exact (refl []).congr (by simp)
  | cons item rest ih =>
      obtain ⟨first, later⟩ := List.forall_mem_cons.mp each
      exact (first.append (ih later)).congr List.forall_mem_cons.symm

end Annotates

/-- A blank line has no code. -/
theorem code_afterBlank (lines : Lines) (level : Nat) :
    codeFrom level (rows (Lines.afterBlank lines)) = codeFrom level (rows lines) ∧
      levelPast level (rows (Lines.afterBlank lines)) = levelPast level (rows lines) := by
  unfold Lines.afterBlank
  split
  · next empty =>
    rw [List.isEmpty_iff.mp empty]
    exact ⟨rfl, rfl⟩
  · have blank : rows ("" :: lines) = [] :: rows lines := rows_cons "" lines
    rw [blank, codeFrom, codeOf_margin_nil]
    exact ⟨rfl, rfl⟩

theorem Annotates.afterBlank (annotates : Annotates lines bare kept) :
    Annotates (Lines.afterBlank lines) (Lines.afterBlank bare) kept := by
  obtain ⟨level, code, fewer, enough⟩ := annotates
  constructor <;> simpa only [code_afterBlank]

/-- Trimmed, a line of a doc comment still has its slashes. -/
theorem trim_commented (line : List Char) :
    ∃ first, Text.pieces '\r' (Text.trim ("/// ".toList ++ Text.trimEnd line)) =
      (slashes ++ first) :: (Text.pieces '\r' (Text.trimEnd line)).tail := by
  by_cases empty : Text.trimEnd line = []
  · rw [empty]
    exact ⟨[], by decide⟩
  · have start : Text.trimStart ("/// ".toList ++ Text.trimEnd line) =
        "/// ".toList ++ Text.trimEnd line := rfl
    have kept : Text.trim ("/// ".toList ++ Text.trimEnd line) = "/// ".toList ++ Text.trimEnd line := by
      rw [Text.trim, start]
      refine Text.trimEnd_of_last fun c last => ?_
      rw [List.getLast?_append_of_ne_nil _ empty] at last
      exact Text.getLast?_trimEnd last
    obtain ⟨first, split⟩ := pieces_commented (Text.trimEnd line)
    exact ⟨' ' :: first, by rw [kept, split]; rfl⟩

theorem isCode_slashes (line : List Char) : isCode (slashes ++ line) = false := by
  simp [isCode, slashes, isSpace]

theorem codeOf_commented (level : Nat) (line : List Char) :
    codeOf (margin level ++ Text.trim ("/// ".toList ++ Text.trimEnd line)) =
      (Text.pieces '\r' (Text.trimEnd line)).tail.filter isCode := by
  have free : '\r' ∉ margin level := fun listed => by
    cases List.eq_of_mem_replicate listed
  obtain ⟨first, split⟩ := trim_commented line
  obtain ⟨piece, more, found, grown⟩ := Text.pieces_append_of_free free
    (Text.trim ("/// ".toList ++ Text.trimEnd line))
  obtain ⟨rfl, rfl⟩ := List.cons.inj (split.symm.trans found)
  rw [codeOf, grown, List.filter_cons, isCode_margin, isCode_slashes]
  rfl

/-- A doc comment has the code that strays from it, and leaves the level as it is. -/
theorem code_docComment (description : String) (level : Nat) :
    codeFrom level (rows (docComment description)) = (strays description).filter isCode ∧
      levelPast level (rows (docComment description)) = level := by
  have neutral : ∀ line ∈ Text.lines description.toList,
      Neutral ("/// " ++ String.ofList (Text.trimEnd line)) := fun line listed =>
    docComment_neutral (some description) _ (List.mem_map_of_mem listed)
  rw [rows, lines_docComment, List.map_map, strays, List.filter_flatMap]
  generalize Text.lines description.toList = written at neutral
  induction written generalizing level with
  | nil => exact ⟨rfl, rfl⟩
  | cons line rest ih =>
      obtain ⟨own, neutral⟩ := List.forall_mem_cons.mp neutral
      have same : levelAfter level (Text.trim ("/// ".toList ++ Text.trimEnd line)) = level := by
        simpa [String.toList_append] using own.levelAfter_trim level
      obtain ⟨code, past⟩ := ih level neutral
      rw [List.map_cons, Function.comp_apply, codeFrom, codeOf_commented, same, code, List.flatMap_cons]
      refine ⟨rfl, ?_⟩
      rw [levelPast, List.foldl_cons, same]
      exact past

theorem annotates_docComment? (description : Option String) :
    Annotates (docComment? description) [] (∀ text ∈ description, Confined text) := by
  cases description with
  | none => exact (Annotates.refl []).congr (by simp)
  | some text =>
      have only : Confined text ↔ ∀ other ∈ some text, Confined other := by simp
      refine Annotates.congr ?_ only
      have code (level : Nat) := code_docComment text level
      have same : docComment? (some text) = docComment text := rfl
      rw [same]
      constructor
      · exact fun level => (code level).2
      · intro confined level
        rw [(code level).1]
        exact List.filter_eq_nil_iff.mpr fun line listed => by simp [confined line listed]
      · exact fun level => Nat.zero_le _
      · intro level few
        rw [(code level).1] at few
        have none := List.filter_eq_nil_iff.mp (List.length_eq_zero_iff.mp (Nat.le_zero.mp few))
        exact fun line listed => by simpa using none line listed

end

end RouterClient.Code
