import RouterClient.Json.Decode

/-! # Failures

What can keep a client, or a part of it, from being generated. A failure that concerns one field,
alternative or procedure is reported and that part is left out; a fatal one that reaches the top
of a procedure ends the run.
-/

namespace RouterClient

/-- Why a file cannot be read or written. -/
inductive FileFault where
  | missing
  /-- Something that is no directory stands where a directory has to be made. -/
  | occupied
  | notDirectory
  | isDirectory
  | nameTooLong
  /-- A character of code zero in the name, which no file's name has. -/
  | zeroInName
  /-- The bytes are no text. -/
  | notText
  | other (message : String)
  deriving DecidableEq, Repr

def FileFault.message : FileFault → String
  | missing => "No such file or directory (os error 2)"
  | occupied => "File exists (os error 17)"
  | notDirectory => "Not a directory (os error 20)"
  | isDirectory => "Is a directory (os error 21)"
  | nameTooLong => "File name too long (os error 36)"
  | zeroInName => "file name contained an unexpected NUL byte"
  | notText => "stream did not contain valid UTF-8"
  | other message => message

/-- A setting without a default that a run needs. -/
inductive NeededSetting where
  | router
  | input
  | output
  deriving DecidableEq, Repr

/-- The setting in words, with the option that gives it. -/
def NeededSetting.text : NeededSetting → String
  | router => "router name (--router-name)"
  | input => "input document (--input)"
  | output => "output file (--output)"

inductive Failure where
  | missingSetting (setting : NeededSetting)
  /-- A procedure path with nothing before, after or between its points. -/
  | emptySegment (path : String)
  | file (path : String) (fault : FileFault)
  | parse (origin : String) (mistake : Json.Mistake)
  | unknownReference (key : String)
  | aliasCycle (key : String)
  | unknownRouter (name : String) (available : List String)
  | pathConflict (path : String)
  | unsupportedSchema (typeName : String)
  | multipleInputs
  | nameCollision (name : String)
  | recursionLimit (limit : Nat)

namespace Failure

def message : Failure → String
  | missingSetting setting => "Invalid configuration: missing " ++ setting.text
  | emptySegment path =>
    "Invalid configuration: procedure path '" ++ path ++ "' has an empty segment"
  | file path fault => "I/O error on '" ++ path ++ "': " ++ fault.message
  | parse origin mistake =>
    "Failed to parse '" ++ origin ++ "' at " ++ Json.Path.text mistake.path ++ ": " ++
      mistake.problem.message
  | unknownReference key => "Unknown schema reference '" ++ key ++ "'"
  | aliasCycle key => "Schema definition '" ++ key ++ "' is an alias of itself"
  | unknownRouter name available =>
    "Could not find router '" ++ name ++ "' (available: " ++ ", ".intercalate available ++ ")"
  | pathConflict path =>
    "Procedure path '" ++ path ++ "' is used both as a procedure and as a namespace"
  | unsupportedSchema typeName => "Unsupported schema type: " ++ typeName
  | multipleInputs => "Multiple inputs not supported."
  | nameCollision name => "Type name '" ++ name ++ "' is already used by a different definition"
  | recursionLimit limit => "Schema nesting exceeds the depth limit of " ++ toString limit

/-- Whether the failure ends the run when it reaches the top of a procedure. -/
def isFatal : Failure → Bool
  | unsupportedSchema _ | recursionLimit _ => true
  | _ => false

end Failure

/-- A failure that left something out of the client, and what it left out. -/
structure Diagnostic where
  location : String
  failure : Failure

def Diagnostic.message (diagnostic : Diagnostic) : String :=
  diagnostic.location ++ ": " ++ diagnostic.failure.message

end RouterClient
