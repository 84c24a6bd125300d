import RouterClient.Text.Blank
import RouterClient.Text.Lines

/-! # Layout of Swift source

Declarations are written as unindented lines. `indent` lays a whole file out: every line is
trimmed and indented by the braces open before it, runs of blank lines become one, and no blank
line follows an opening brace, precedes a closing one or stands at either end of the file.
-/

namespace RouterClient.Code

/-- Unindented lines of Swift, none with its line feed. -/
abbrev Lines := List String

namespace Lines

/-- The lines as one text, each with its line feed. -/
def text (lines : Lines) : String :=
  String.join (lines.map (· ++ "\n"))

/-- Several groups of lines, with a blank line between any two. -/
def spaced : List Lines → Lines
  | [] => []
  | [last] => last
  | first :: more => first ++ "" :: spaced more

/-- The lines after a blank one, or nothing for nothing. -/
def afterBlank (lines : Lines) : Lines :=
  if lines.isEmpty then [] else "" :: lines

/-- A head line, a body, and the brace that closes what the head line opened. -/
def block (head : String) (body : Lines) : Lines :=
  (head ++ " \x7b") :: body ++ ["\x7d"]

theorem text_append (lines more : Lines) : (lines ++ more).text = lines.text ++ more.text := by
  simp [text]

end Lines

/-- The lines of a doc comment: `///` before each line of the description, whose blank end is
dropped. -/
def docComment (description : String) : Lines :=
  (Text.lines description.toList).map fun line => "/// " ++ String.ofList (Text.trimEnd line)

def docComment? (description : Option String) : Lines :=
  (description.map docComment).getD []

/-- Where a reader of one line stands. -/
inductive LineState where
  /-- In code; `slash` says that the character before was a slash. -/
  | code (slash : Bool)
  /-- In a string literal. -/
  | string
  /-- In a string literal, after a backslash. -/
  | escape
  /-- After two slashes: the rest is a comment. -/
  | comment
  deriving DecidableEq, Repr

/-- The braces of a line that are neither in a string literal nor in a comment. -/
structure Braces where
  opening : Nat
  closing : Nat
  deriving DecidableEq, Repr

/-- Read one character: the state after it and the braces seen so far. -/
def LineState.step : LineState × Braces → Char → LineState × Braces
  | (.code slash, seen), c =>
    if c = '"' then (.string, seen)
    else if c = '/' then if slash then (.comment, seen) else (.code true, seen)
    else if c = '\x7b' then (.code false, { seen with opening := seen.opening + 1 })
    else if c = '\x7d' then (.code false, { seen with closing := seen.closing + 1 })
    else (.code false, seen)
  | (.string, seen), c =>
    if c = '\\' then (.escape, seen)
    else if c = '"' then (.code false, seen)
    else (.string, seen)
  | (.escape, seen), _ => (.string, seen)
  | (.comment, seen), _ => (.comment, seen)

/-- The braces of one line that count. -/
def countBraces (line : List Char) : Braces :=
  (line.foldl LineState.step (.code false, ⟨0, 0⟩)).2

/-- Four spaces for each brace that is open. -/
def margin (level : Nat) : List Char :=
  List.replicate (4 * level) ' '

/-- Whether the line closes a block that a line before it opened. -/
def closesBlock (line : List Char) : Bool :=
  line.head? == some '\x7d'

/-- Whether the line opens a block for the lines after it. -/
def opensBlock (line : List Char) : Bool :=
  line.getLast? == some '\x7b'

/-- The level of a trimmed line itself: a brace at its start counts before the line. -/
def levelAt (level : Nat) (line : List Char) : Nat :=
  if closesBlock line then level - 1 else level

/-- The level after a trimmed line. -/
def levelAfter (level : Nat) (line : List Char) : Nat :=
  let braces := countBraces line
  let leading := if closesBlock line then 1 else 0
  levelAt level line + braces.opening - (braces.closing - leading)

/-- Whether a blank line stays between two lines that have blank lines between them. -/
def keepsBlank (before : Option (List Char)) (line : List Char) : Bool :=
  match before with
  | none => false
  | some before => !opensBlock before && !closesBlock line

/-- Lay out trimmed lines from a level, after the line `before`; `gap` says that blank lines
stand between that line and the first of these. -/
def layOut (level : Nat) (before : Option (List Char)) (gap : Bool) :
    List (List Char) → List (List Char)
  | [] => []
  | line :: rest =>
    if line.isEmpty then layOut level before true rest
    else
      let margined := margin (levelAt level line) ++ line
      let below := layOut (levelAfter level line) (some line) false rest
      if gap && keepsBlank before line then [] :: margined :: below else margined :: below

def indent (source : String) : String :=
  Lines.text
    ((layOut 0 none false ((Text.lines source.toList).map Text.trim)).map String.ofList)

end RouterClient.Code
