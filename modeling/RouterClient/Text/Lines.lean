/-! # Pieces and lines of a text

A text is cut at every occurrence of a mark. Lines end at a line feed, which may follow one
carriage return; the text after the last line feed is a line only when it is not empty.
-/

namespace RouterClient.Text

/-- The pieces of a text between the occurrences of `mark`: one more than there are marks. -/
def pieces (mark : Char) (cs : List Char) : List (List Char) :=
  cs.foldr
    (fun c found =>
      if c = mark then [] :: found
      else match found with
        | [] => [[c]]
        | piece :: more => (c :: piece) :: more)
    [[]]

@[simp] theorem pieces_nil (mark : Char) : pieces mark [] = [[]] := rfl

/-- A mark closes the piece before it. -/
@[simp] theorem pieces_cons_mark (mark : Char) (cs : List Char) :
    pieces mark (mark :: cs) = [] :: pieces mark cs := by
  simp [pieces]

/-- `pieces`, over a string. -/
def split (mark : Char) (text : String) : List String :=
  (pieces mark text.toList).map String.ofList

/-- The line without the carriage return it may end in. -/
def dropCarriageReturn (line : List Char) : List Char :=
  if line.getLast? = some '\r' then line.dropLast else line

/-- All pieces but the last end in a line feed. -/
def linesOfPieces : List (List Char) → List (List Char)
  | [] => []
  | [last] => if last.isEmpty then [] else [last]
  | piece :: more => dropCarriageReturn piece :: linesOfPieces more

/-- The lines of a text, without what ends them. -/
def lines (cs : List Char) : List (List Char) :=
  linesOfPieces (pieces '\n' cs)

@[simp] theorem lines_nil : lines [] = [] := rfl

end RouterClient.Text
