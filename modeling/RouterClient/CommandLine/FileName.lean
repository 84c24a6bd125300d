import RouterClient.Failure
import RouterClient.Text.Lines

/-! # File names

A file name is a text with slashes between its components. Slashes and lone points at its end, and
lone points inside it, add nothing to what it names.
-/

namespace RouterClient.CommandLine

/-- A reversed file name without the slashes and lone points that it ends in; the root's slash
stays. -/
def dropIdle : List Char → List Char
  | ['/'] => ['/']
  | '/' :: before => dropIdle before
  | '.' :: '/' :: before => dropIdle ('/' :: before)
  | text => text
termination_by text => text.length

/-- The name of the directory that holds a file: empty for a single component, and none for the
root and for the empty name. -/
def parentName? (name : String) : Option String :=
  match dropIdle name.toList.reverse with
  | [] | ['/'] => none
  | text => some (.ofList (dropIdle (text.dropWhile (· != '/'))).reverse)

def componentsOf (name : String) : List String :=
  (Text.split '/' name).filter fun part => !part.isEmpty

/-- Whether a name ends in a slash, which only a directory's name may. -/
def endsInSlash (name : String) : Bool :=
  name.toList.getLast? == some '/'

/-- Whether a name starts at the root. -/
def isAbsolute (name : String) : Bool :=
  name.toList.head? == some '/'

/-- The most bytes of a name as a whole. -/
def nameLimit : Nat := 4095

/-- The most bytes of one component of a name. -/
def componentLimit : Nat := 255

/-- What keeps a name from naming anything at all. -/
def nameFault? (name : String) : Option FileFault :=
  if name.toList.contains '\x00' then some .zeroInName
  else if name.isEmpty then some .missing
  else if name.utf8ByteSize > nameLimit then some .nameTooLong
  else none

end RouterClient.CommandLine
