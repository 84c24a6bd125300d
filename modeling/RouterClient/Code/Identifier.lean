/-! # Swift identifiers

Keys, paths and declared names are arbitrary text. Here they become the names of Swift types,
members and enum cases: words are joined in camel case, a leading digit is set off by an
underscore, and so is a name that Swift reserves.
-/

namespace RouterClient.Code

/-- An ASCII letter or digit. -/
def isWordChar (c : Char) : Bool :=
  c.isAlpha || c.isDigit

/-- Camel case, where `pending` says that a run of other characters has just been read. Such a
run goes away before a letter, which becomes a capital, and is an underscore anywhere else. -/
def camel : (pending : Bool) → List Char → List Char
  | pending, [] => if pending then ['_'] else []
  | pending, c :: rest =>
    if isWordChar c then
      if pending then
        if c.isAlpha then c.toUpper :: camel false rest else '_' :: c :: camel false rest
      else c :: camel false rest
    else camel true rest

/-- The words of a text in camel case; what follows a word's first letter is left alone. -/
def camelize (text : List Char) : List Char :=
  camel false text

/-- A name that is empty or starts with a digit gets an underscore in front. -/
def escapeDigit : List Char → List Char
  | [] => ['_']
  | c :: rest => if c.isDigit then '_' :: c :: rest else c :: rest

/-- Names that Swift does not let a generated type have. -/
def reservedTypes : List String :=
  ["Type", "Protocol", "Class", "Enum", "Struct", "Extension", "Self", "Any"]

/-- Names that Swift does not let a property, a method or an enum case have. -/
def reservedMembers : List String :=
  ["Any", "Protocol", "Self", "Type", "as", "associatedtype", "await", "break",
    "case", "catch", "class", "continue", "default", "defer", "deinit", "do", "else", "enum",
    "extension", "fallthrough", "false", "fileprivate", "for", "func", "guard", "if", "import",
    "in", "init", "inout", "internal", "is", "let", "nil", "operator", "precedencegroup",
    "private", "protocol", "public", "repeat", "rethrows", "return", "self", "static", "struct",
    "subscript", "super", "switch", "throw", "throws", "true", "try", "typealias", "var",
    "where", "while"]

/-- A reserved name gets an underscore in front. -/
def escapeReserved (reserved : List String) (name : List Char) : List Char :=
  if reserved.contains (String.ofList name) then '_' :: name else name

def capitalize : List Char → List Char
  | [] => []
  | c :: rest => c.toUpper :: rest

def uncapitalize : List Char → List Char
  | [] => []
  | c :: rest => c.toLower :: rest

/-- The name of a struct, an enum or a class. -/
def typeName (text : String) : String :=
  .ofList (escapeReserved reservedTypes (escapeDigit (capitalize (camelize text.toList))))

/-- The name of a property, a method or an enum case. -/
def memberName (text : String) : String :=
  .ofList (escapeReserved reservedMembers (escapeDigit (camelize text.toList)))

/-- Letters, digits and underscores, of which the first is no digit. -/
def isIdentifier : List Char → Bool
  | [] => false
  | c :: rest => (c.isAlpha || c == '_') && rest.all fun c => isWordChar c || c == '_'

/-- The property that holds a value of the type written `signature`; none when the type is
written with brackets. -/
def alternativeName? (signature : String) : Option String :=
  if isIdentifier signature.toList then
    some (memberName (.ofList (uncapitalize signature.toList)))
  else none

@[simp] theorem camel_nil (pending : Bool) : camel pending [] = if pending then ['_'] else [] :=
  rfl

end RouterClient.Code
