/-! # Faults of a JSON text

What can be wrong with a text that ought to be JSON, apart from what its values mean.
-/

namespace RouterClient.Json

inductive Fault where
  /-- The text ends where a value is due, or inside one that is neither a string, a list nor an
  object. -/
  | valueEnded
  | listEnded
  | objectEnded
  | stringEnded
  /-- No value starts with the character that comes next. -/
  | notAValue
  /-- A word that starts like `null`, `true` or `false` and goes on otherwise. -/
  | misspelt
  | colonMissing
  /-- Neither a comma nor the end of the list follows an item. -/
  | listUnseparated
  /-- Neither a comma nor the end of the object follows a member. -/
  | objectUnseparated
  | trailingComma
  | keyNotAString
  | malformedNumber
  | numberTooLarge
  | unknownEscape
  /-- No second half of a surrogate pair follows the first. -/
  | unfinishedSurrogate
  /-- Half a surrogate pair where no half may stand alone. -/
  | loneSurrogate
  | controlCharacter
  /-- More items than a structure has fields. -/
  | trailingItems
  | tooDeep
  deriving DecidableEq, Repr

def Fault.message : Fault → String
  | valueEnded => "EOF while parsing a value"
  | listEnded => "EOF while parsing a list"
  | objectEnded => "EOF while parsing an object"
  | stringEnded => "EOF while parsing a string"
  | notAValue => "expected value"
  | misspelt => "expected ident"
  | colonMissing => "expected `:`"
  | listUnseparated => "expected `,` or `]`"
  | objectUnseparated => "expected `,` or `\x7d`"
  | trailingComma => "trailing comma"
  | keyNotAString => "key must be a string"
  | malformedNumber => "invalid number"
  | numberTooLarge => "number out of range"
  | unknownEscape => "invalid escape"
  | unfinishedSurrogate => "unexpected end of hex escape"
  | loneSurrogate => "lone leading surrogate in hex escape"
  | controlCharacter => "control character (\\u0000-\\u001F) found while parsing a string"
  | trailingItems => "trailing characters"
  | tooDeep => "recursion limit exceeded"

end RouterClient.Json
