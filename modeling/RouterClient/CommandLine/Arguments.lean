import RouterClient.Settings

/-! # Command line arguments

An option with a value is written `--long value`, `--long=value`, `-l value`, `-lvalue` or
`-l=value`; switches may share one dash. Nothing may be given twice. An option waits for its value
until something else is recognised, and only then is it checked, whereas an argument that nobody
knows is refused at once.
-/

namespace RouterClient.CommandLine

/-- Why arguments are refused, or what they ask for instead of a run. -/
inductive UsageError where
  | unknownArgument
  /-- A value that is missing or that the option does not have. -/
  | invalidValue
  /-- Something is given twice. -/
  | argumentConflict
  /-- A value is given to a switch. -/
  | tooManyValues
  | displayHelp
  | displayVersion
  deriving DecidableEq, Repr

/-- An option that takes a value. -/
inductive Valued where
  | router
  | input
  | output
  | hoisting
  | conformance
  | access
  | configuration
  | template
  deriving DecidableEq, Repr

inductive Switch where
  | createsAliases
  | createsShared
  | quiet
  deriving DecidableEq, Repr

inductive Flag where
  | valued (option : Valued)
  | switch (option : Switch)
  | help
  | version
  deriving DecidableEq, Repr

/-- The options by their long names. -/
def longFlags : List (String × Flag) :=
  [ ("router-name", .valued .router), ("input", .valued .input), ("output", .valued .output),
    ("create-type-aliases", .switch .createsAliases), ("create-shared", .switch .createsShared),
    ("global-mode", .valued .hoisting), ("conformance", .valued .conformance),
    ("permission-scope", .valued .access), ("config", .valued .configuration),
    ("template", .valued .template), ("quiet", .switch .quiet), ("help", .help),
    ("version", .version) ]

/-- The options by their letters. -/
def shortFlags : List (Char × Flag) :=
  [ ('n', .valued .router), ('i', .valued .input), ('o', .valued .output),
    ('a', .switch .createsAliases), ('s', .switch .createsShared), ('g', .valued .hoisting),
    ('c', .valued .conformance), ('q', .switch .quiet), ('h', .help), ('V', .version) ]

structure Arguments where
  router : Option String := none
  input : Option String := none
  output : Option String := none
  createsAliases : Bool := false
  createsShared : Bool := false
  hoisting : Option Hoisting := none
  conformance : Option String := none
  access : Option Access := none
  configuration : Option String := none
  template : Option String := none
  quiet : Bool := false
  deriving DecidableEq, Repr

namespace Arguments

/-- Give a value to a setting that has none so far. -/
def once {α β : Type} (current : Option α) (value : Except UsageError β) : Except UsageError β :=
  if current.isSome then .error .argumentConflict else value

/-- A file's name, which is not empty. -/
def fileName (text : String) : Except UsageError String :=
  if text.isEmpty then .error .invalidValue else .ok text

/-- One of some words. -/
def oneOf {α : Type} (words : List (String × α)) (text : String) : Except UsageError α :=
  match words.lookup text with
  | some found => .ok found
  | none => .error .invalidValue

def setValue (arguments : Arguments) (option : Valued) (text : String) :
    Except UsageError Arguments :=
  match option with
  | .router => do
    let value ← once arguments.router (.ok text)
    return { arguments with router := some value }
  | .input => do
    let value ← once arguments.input (fileName text)
    return { arguments with input := some value }
  | .output => do
    let value ← once arguments.output (fileName text)
    return { arguments with output := some value }
  | .hoisting => do
    let modes := [("all", Hoisting.all), ("top", .top), ("none", .never)]
    let value ← once arguments.hoisting (oneOf modes text)
    return { arguments with hoisting := some value }
  | .conformance => do
    let value ← once arguments.conformance (.ok text)
    return { arguments with conformance := some value }
  | .access => do
    let levels := [("internal", Access.internal), ("public", .published)]
    let value ← once arguments.access (oneOf levels text)
    return { arguments with access := some value }
  | .configuration => do
    let value ← once arguments.configuration (fileName text)
    return { arguments with configuration := some value }
  | .template => do
    let value ← once arguments.template (fileName text)
    return { arguments with template := some value }

def setSwitch (arguments : Arguments) : Switch → Except UsageError Arguments
  | .createsAliases =>
    if arguments.createsAliases then .error .argumentConflict
    else .ok { arguments with createsAliases := true }
  | .createsShared =>
    if arguments.createsShared then .error .argumentConflict
    else .ok { arguments with createsShared := true }
  | .quiet =>
    if arguments.quiet then .error .argumentConflict else .ok { arguments with quiet := true }

end Arguments

/-- What has been read of a command line. -/
structure Progress where
  arguments : Arguments := {}
  /-- The option that has not been checked yet, and its value when it has come. -/
  pending : Option (Valued × Option String) := none
  /-- Whether two dashes have been read, after which no option is recognised. -/
  closed : Bool := false

namespace Progress

/-- Check the option that is waiting. -/
def settle (progress : Progress) : Except UsageError Progress :=
  match progress.pending with
  | none => .ok progress
  | some (_, none) => .error .invalidValue
  | some (option, some value) => do
    let arguments ← progress.arguments.setValue option value
    return { progress with arguments, pending := none }

/-- An option whose value is still to come. -/
def await (progress : Progress) (option : Valued) : Except UsageError Progress := do
  return { (← progress.settle) with pending := some (option, none) }

/-- An option together with its value. -/
def give (progress : Progress) (option : Valued) (value : String) : Except UsageError Progress := do
  let settled ← progress.settle
  return { settled with arguments := ← settled.arguments.setValue option value }

def turnOn (progress : Progress) (option : Switch) : Except UsageError Progress := do
  let settled ← progress.settle
  return { settled with arguments := ← settled.arguments.setSwitch option }

/-- Something that is shown instead of a run. -/
def display (progress : Progress) (what : UsageError) : Except UsageError Progress := do
  let _ ← progress.settle
  .error what

/-- An argument that starts with two dashes: a name, and a value after an equals sign. -/
def readLong (progress : Progress) (text : List Char) : Except UsageError Progress :=
  let name := String.ofList (text.takeWhile (· != '='))
  let value := match text.dropWhile (· != '=') with
    | [] => none
    | _ :: value => some (String.ofList value)
  match longFlags.lookup name, value with
  | none, _ => .error .unknownArgument
  | some (.valued option), some value => progress.give option value
  | some (.valued option), none => progress.await option
  | some _, some _ => .error .tooManyValues
  | some (.switch option), none => progress.turnOn option
  | some .help, none => progress.display .displayHelp
  | some .version, none => progress.display .displayVersion

/-- The letters after one dash. The first option that takes a value takes what follows it. -/
def readShort (progress : Progress) : List Char → Except UsageError Progress
  | [] => .ok progress
  | letter :: more =>
    match shortFlags.lookup letter with
    | none => .error .unknownArgument
    | some (.switch option) => do readShort (← progress.turnOn option) more
    | some .help => progress.display .displayHelp
    | some .version => progress.display .displayVersion
    | some (.valued option) =>
      match more with
      | [] => progress.await option
      | '=' :: value => progress.give option (String.ofList value)
      | value => progress.give option (String.ofList value)

/-- An argument without a dash, or a lone dash: the value that an option waits for. -/
def readPlain (progress : Progress) (text : String) : Except UsageError Progress :=
  match progress.pending with
  | some (option, none) => .ok { progress with pending := some (option, some text) }
  | _ => .error .unknownArgument

/-- The next argument. -/
def read (progress : Progress) (argument : String) : Except UsageError Progress :=
  if progress.closed then .error .unknownArgument
  else match argument.toList with
    | ['-', '-'] => .ok { progress with closed := true }
    | '-' :: '-' :: text => progress.readLong text
    | '-' :: letter :: more => progress.readShort (letter :: more)
    | _ => progress.readPlain argument

end Progress

/-- The arguments of a command line. -/
def Arguments.ofList (arguments : List String) : Except UsageError Arguments := do
  let progress ← arguments.foldlM Progress.read {}
  return (← progress.settle).arguments

/-- The settings of a configuration with the arguments on top of them. -/
def Arguments.applyTo (arguments : Arguments) (settings : Settings) : Settings :=
  let protocols := arguments.conformance.map protocolsOfList
  { settings with
    router := arguments.router.or settings.router
    input := arguments.input.or settings.input
    output := arguments.output.or settings.output
    template := arguments.template.or settings.template
    hoisting := arguments.hoisting.getD settings.hoisting
    structProtocols := protocols.getD settings.structProtocols
    enumProtocols := protocols.getD settings.enumProtocols
    access := arguments.access.getD settings.access
    createsAliases := settings.createsAliases || arguments.createsAliases
    createsShared := settings.createsShared || arguments.createsShared
    quiet := settings.quiet || arguments.quiet }

end RouterClient.CommandLine
