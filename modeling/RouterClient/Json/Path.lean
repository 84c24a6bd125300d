/-! # Places in a document

A path leads from the root of a document to the value that a message is about.
-/

namespace RouterClient.Json

/-- One step from a value to a part of it. -/
inductive Step where
  | key (name : String)
  | index (i : Nat)
  /-- To a part whose key is not known yet. -/
  | unknown
  deriving DecidableEq, Repr

/-- A path from the root of a document. -/
abbrev Path := List Step

namespace Path

/-- A step that is not the first one. -/
def stepText : Step → String
  | .key name => "." ++ name
  | .index i => "[" ++ toString i ++ "]"
  | .unknown => ".?"

/-- The path in words: keys with points between them, positions in brackets, and a single point
for the root. -/
def text : Path → String
  | [] => "."
  | first :: more =>
    let start := match first with
      | .key name => name
      | .index i => "[" ++ toString i ++ "]"
      | .unknown => "?"
    start ++ String.join (more.map stepText)

end Path

end RouterClient.Json
