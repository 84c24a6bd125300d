import RouterClient.Client.Assembly
import RouterClient.Client.RuntimeText
import RouterClient.CommandLine.Arguments
import RouterClient.CommandLine.FileTree

/-! # Runs of the command line

A run reads its configuration, its template and its document, generates the whole file and only
then writes it, so that a run that fails before leaves nothing behind. It works through three
operations on files, whoever carries them out.
-/

namespace RouterClient.CommandLine

universe v

/-- The operations on files that a run needs. -/
structure FileAccess (m : Type → Type v) where
  readText : String → m (Except FileFault String)
  makeDirectories : String → m (Except FileFault Unit)
  writeText : String → String → m (Except FileFault Unit)

/-- The operations on a file tree. -/
def FileAccess.onTree : FileAccess (StateM FileTree) where
  readText name := return (← get).readText name
  makeDirectories name := do
    match (← get).makeDirectories name with
    | .ok tree => set tree; return .ok ()
    | .error fault => return .error fault
  writeText name text := do
    match (← get).writeText name text with
    | .ok tree => set tree; return .ok ()
    | .error fault => return .error fault

structure Summary where
  output : String
  /-- How many procedures, fields and alternatives were left out. -/
  skipped : Nat
  quiet : Bool
  deriving DecidableEq, Repr

/-- What a run has come to. -/
structure Report where
  /-- Whether the settings keep warnings back. -/
  quiet : Bool := false
  diagnostics : List Diagnostic := []
  procedure : Option String := none
  result : Except Failure Summary

/-- The report of a run that ends before there is a client. -/
def Report.failed (quiet : Bool) (failure : Failure) : Report :=
  { quiet, result := .error failure }

section

variable {m : Type → Type v} [Monad m]

/-- A file operation, whose fault is a failure of the run. It is not tried with a name that can
name nothing. -/
def onFile {α : Type} (name : String) (operation : m (Except FileFault α)) :
    ExceptT Failure m α := do
  if let some fault := nameFault? name then throw (.file name fault)
  match ← operation with
  | .ok value => return value
  | .error fault => throw (.file name fault)

def loadSettings (files : FileAccess m) (name : String) : ExceptT Failure m Settings := do
  let text ← onFile name (files.readText name)
  match Settings.ofText text with
  | .ok settings => return settings
  | .error mistake => throw (.parse name mistake)

/-- The settings of a run: those of its configuration file, with the arguments on top. -/
def settingsOf (files : FileAccess m) (arguments : Arguments) : ExceptT Failure m Settings := do
  let base ← match arguments.configuration with
    | some name => loadSettings files name
    | none => pure {}
  return arguments.applyTo base

/-- A setting that a run cannot do without. -/
def needed (setting : NeededSetting) : Option String → ExceptT Failure m String
  | some value => pure value
  | none => throw (.missingSetting setting)

/-- The document and the texts that a client is generated from. -/
structure Order where
  document : Document
  router : String
  template : String
  output : String

/-- Collect what a run needs: settings first, then the template, then the document. -/
def orderOf (files : FileAccess m) (settings : Settings) : ExceptT Failure m Order := do
  let router ← needed .router settings.router
  let input ← needed .input settings.input
  let output ← needed .output settings.output
  let template ← match settings.template with
    | some name => onFile name (files.readText name)
    | none => pure Client.runtimeText
  let text ← onFile input (files.readText input)
  let document ← match Document.ofText text input with
    | .ok document => pure document
    | .error failure => throw failure
  return { document, router, template, output }

/-- Write the generated file into its directory, which is made if it is missing. -/
def writeOutput (files : FileAccess m) (name text : String) : ExceptT Failure m Unit := do
  match parentName? name with
  | some "" | none => pure ()
  | some parent => onFile parent (files.makeDirectories parent)
  onFile name (files.writeText name text)

def run (files : FileAccess m) (arguments : Arguments) : m Report := do
  match ← (settingsOf files arguments).run with
  | .error failure => return .failed arguments.quiet failure
  | .ok settings =>
    match ← (orderOf files settings).run with
    | .error failure => return .failed settings.quiet failure
    | .ok order =>
      match Client.generate settings order.document order.router order.template with
      | .error abort =>
        return {
          quiet := settings.quiet
          diagnostics := abort.diagnostics
          procedure := abort.procedure
          result := .error abort.failure }
      | .ok generation =>
        let written ← (writeOutput files order.output generation.source).run
        let summary : Summary := {
          output := order.output
          skipped := generation.diagnostics.length
          quiet := settings.quiet }
        return {
          quiet := settings.quiet
          diagnostics := generation.diagnostics
          result := written.map fun _ => summary }

end

/-- A message of a run. -/
inductive Message where
  /-- Something was left out. -/
  | warning (diagnostic : Diagnostic)
  /-- A procedure ended the run. -/
  | procedureError (procedure : String) (failure : Failure)
  | generated (summary : Summary)
  | failed (failure : Failure)

/-- The cause of a failure, which is shown once more after it. -/
def causeText : Failure → String
  | .file _ fault => ": " ++ fault.message
  | _ => ""

/-- The message in words, with the time that it was given at or that the run took. -/
def Message.text (time : String) : Message → String
  | warning diagnostic =>
    time ++ "  WARN left out of the generated client location=" ++ diagnostic.location ++
      " error=" ++ diagnostic.failure.message
  | procedureError procedure failure =>
    time ++ " ERROR cannot compile procedure procedure=" ++ procedure ++
      " error=" ++ failure.message
  | generated summary =>
    let skipped :=
      if summary.skipped = 0 then ""
      else " (" ++ toString summary.skipped ++ " skipped, see warnings)"
    "Generated " ++ summary.output ++ " in " ++ time ++ skipped
  | failed failure =>
    "error: failed to generate the Swift client: " ++ failure.message ++ causeText failure

namespace Report

/-- The messages of a run in order. A quiet run shows failures alone. -/
def messages (report : Report) : List Message :=
  let warnings := if report.quiet then [] else report.diagnostics.map Message.warning
  match report.result with
  | .ok summary => warnings ++ if summary.quiet then [] else [.generated summary]
  | .error failure =>
    warnings ++ (report.procedure.map fun path => Message.procedureError path failure).toList ++
      [.failed failure]

def exitCode (report : Report) : Nat :=
  match report.result with
  | .ok _ => 0
  | .error _ => 1

end Report

/-- The exit code for arguments that are refused. Help and version are no errors. -/
def UsageError.exitCode : UsageError → Nat
  | displayHelp | displayVersion => 0
  | _ => 2

end RouterClient.CommandLine
