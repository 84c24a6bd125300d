import RouterClient.Json.Decode
import RouterClient.Text.Blank
import RouterClient.Text.Lines

/-! # Settings of a generated client

What a client contains and how its declarations look. Every setting has a default, so a
configuration text says only what differs from it.
-/

namespace RouterClient

/-- Who may use the generated declarations. -/
inductive Access where
  /-- The module that they are compiled into. -/
  | internal
  /-- Every module. -/
  | published
  deriving DecidableEq, Repr

/-- Which named models are declared once for the whole file. -/
inductive Hoisting where
  | all
  /-- Those that an input or an output of a procedure is, wrappers aside. -/
  | top
  | never
  deriving DecidableEq, Repr

/-- Which procedures the client has when they do not say so themselves. -/
inductive ProcedureInclusion where
  | all
  | none
  deriving DecidableEq, Repr

/-- Which models the client has. -/
inductive ModelInclusion where
  /-- Every named definition of the document. -/
  | all
  /-- Those that a procedure of the client needs. -/
  | referenced
  deriving DecidableEq, Repr

structure Settings where
  access : Access := .internal
  /-- The protocols of generated structs, beside `Codable`. -/
  structProtocols : List String := ["Equatable"]
  /-- The protocols of generated enums, beside `Codable`. -/
  enumProtocols : List String := ["Equatable"]
  procedures : ProcedureInclusion := .all
  models : ModelInclusion := .referenced
  hoisting : Hoisting := .all
  /-- Whether an initializer assigns a property that has only one value by itself. -/
  assignsLiterals : Bool := false
  /-- Whether types nested in route classes get names at the top of the file. -/
  createsAliases : Bool := false
  /-- Whether the root class has a shared instance. -/
  createsShared : Bool := false
  /-- Whether warnings and the closing message are left out. -/
  quiet : Bool := false
  router : Option String := none
  /-- The file that holds the router definition document. -/
  input : Option String := none
  output : Option String := none
  /-- A file whose text replaces the bundled runtime text. -/
  template : Option String := none
  deriving DecidableEq, Repr

/-- What stands before a declaration to give it its access. -/
def Access.modifier : Access → String
  | internal => ""
  | published => "public "

/-- The protocols of a comma separated list. -/
def protocolsOfList (list : String) : List String :=
  ((Text.pieces ',' list.toList).map Text.trim).filterMap fun name =>
    if name.isEmpty then none else some (String.ofList name)

/-- The conformance clause for some protocols: `Codable` first, and no protocol twice. -/
def conformanceClause (protocols : List String) : String :=
  ", ".intercalate <| protocols.foldl
    (fun named name => if named.contains name then named else named ++ [name]) ["Codable"]

namespace Settings

def structClause (settings : Settings) : String :=
  conformanceClause settings.structProtocols

def enumClause (settings : Settings) : String :=
  conformanceClause settings.enumProtocols

open Json Json.Decode

/-- A section: a structure whose fields are settings. -/
def sectionField (form : Form) (key name : String) (fields : List (FieldRule Settings)) :
    FieldRule Settings where
  name := key
  decode levels tree settings := record name fields settings form levels tree

/-- A setting that is on or off. -/
def flagField (key : String) (set : Settings → Bool → Settings) : FieldRule Settings :=
  .of key (fun _ => bool) set

def fields (form : Form) : List (FieldRule Settings) :=
  [ .of "permissionScope" (choice [("internal", Access.internal), ("public", .published)] form)
      fun s access => { s with access },
    sectionField form "conformance" "Conformance"
      [ .of "structs" (list · fun _ => string) fun s names => { s with structProtocols := names },
        .of "enums" (list · fun _ => string) fun s names => { s with enumProtocols := names } ],
    sectionField form "procedures" "ProcedurePolicy"
      [ .of "include" (choice [("all", ProcedureInclusion.all), ("none", .none)] form)
          fun s procedures => { s with procedures } ],
    sectionField form "models" "ModelPolicy"
      [ .of "include" (choice [("all", ModelInclusion.all), ("referenced", .referenced)] form)
          fun s models => { s with models },
        .of "makeGlobal"
          (choice [("all", Hoisting.all), ("top", .top), ("none", .never)] form)
          fun s hoisting => { s with hoisting } ],
    sectionField form "literals" "LiteralPolicy"
      [ flagField "autoAssignInInitializers" fun s b => { s with assignsLiterals := b } ],
    flagField "createTypeAliases" fun s b => { s with createsAliases := b },
    flagField "createShared" fun s b => { s with createsShared := b },
    flagField "quiet" fun s b => { s with quiet := b },
    .of "router" (fun _ => option string) fun s router => { s with router },
    .of "input" (fun _ => option filePath) fun s input => { s with input },
    .of "outFile" (fun _ => option filePath) fun s output => { s with output },
    .of "template" (fun _ => option filePath) fun s template => { s with template } ]

/-- The settings that a configuration text describes. -/
def ofText (text : String) : Decoded Settings :=
  Decode.ofText (fun form => record "Configuration" (fields form) {} form) text

end Settings

end RouterClient
