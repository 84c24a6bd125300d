import RouterClient.CommandLine.Run

/-! # The program

The command line in front of a run: arguments come in, files are read and written on disk, and
messages go to the standard error.
-/

namespace RouterClient.CommandLine

/-- What the operating system says about a file. -/
def faultOf (error : IO.Error) : FileFault :=
  match error with
  | .noFileOrDirectory _ _ _ => .missing
  | .alreadyExists _ _ _ => .occupied
  | .inappropriateType _ 20 _ => .notDirectory
  | .inappropriateType _ 21 _ => .isDirectory
  | .invalidArgument _ 36 _ => .nameTooLong
  | error => .other (toString error)

/-- Carry out an operation, and take its error as a result. -/
def onDisk {α : Type} (operation : IO α) : IO (Except FileFault α) := do
  match ← operation.toBaseIO with
  | .ok value => return .ok value
  | .error error => return .error (faultOf error)

/-- The operations on the files of a disk. -/
def FileAccess.ofDisk : FileAccess IO where
  readText name := do
    match ← onDisk (IO.FS.readBinFile name) with
    | .error fault => return .error fault
    | .ok bytes =>
      match String.fromUTF8? bytes with
      | some text => return .ok text
      | none => return .error .notText
  makeDirectories name := onDisk (IO.FS.createDirAll name)
  writeText name text := onDisk (IO.FS.writeFile name text)

/-- What the program says about its arguments. -/
def usageText : String :=
  "generate a typed Swift client from a tRPC router definition document\n\n" ++
  "Usage: trpc-swift [OPTIONS]\n\n" ++
  "Options:\n" ++
  "  -n, --router-name <ROUTER_NAME>\n" ++
  "  -i, --input <INPUT>\n" ++
  "  -o, --output <OUTPUT>\n" ++
  "  -a, --create-type-aliases\n" ++
  "  -s, --create-shared\n" ++
  "  -g, --global-mode <all|top|none>\n" ++
  "  -c, --conformance <CONFORMANCE>\n" ++
  "      --permission-scope <internal|public>\n" ++
  "      --config <CONFIG>\n" ++
  "      --template <TEMPLATE>\n" ++
  "  -q, --quiet\n" ++
  "  -h, --help\n" ++
  "  -V, --version"

def UsageError.text : UsageError → String
  | unknownArgument => "error: unexpected argument"
  | invalidValue => "error: invalid or missing value"
  | argumentConflict => "error: an argument cannot be used multiple times"
  | tooManyValues => "error: unexpected value"
  | displayHelp => usageText
  | displayVersion => "trpc-swift 0.1.0"

/-- Answer a command line that asks for no run. -/
def refuse (error : UsageError) : IO UInt32 := do
  if error.exitCode = 0 then IO.println error.text
  else IO.eprintln (error.text ++ "\n\n" ++ usageText)
  return UInt32.ofNat error.exitCode

end RouterClient.CommandLine

open RouterClient.CommandLine in
def main (arguments : List String) : IO UInt32 := do
  match Arguments.ofList arguments with
  | .error error => refuse error
  | .ok arguments =>
    let started ← IO.monoMsNow
    let report ← run FileAccess.ofDisk arguments
    let elapsed := (← IO.monoMsNow) - started
    for message in report.messages do
      IO.eprintln (message.text (toString elapsed ++ "ms"))
    return UInt32.ofNat report.exitCode
