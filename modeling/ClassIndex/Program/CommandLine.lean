import ClassIndex.Indexing.Outline
import ClassIndex.Indexing.Session
import ClassIndex.Program.Demo

/-!
# The command line

`CommandLine.answer` says what the program writes, and with which code it ends, for the arguments it
is started with. It indexes the demonstration and shows the outline of what it found.

Arguments are read from left to right, and the first one that is wrong or that asks for a text of
its own decides. A long option takes its value after an equals sign or as the next argument.
-/

namespace ClassIndex

namespace CommandLine

/-- The settings that arguments have made so far. -/
structure Settings where
  logLevel : Option String := none
  dumpBytecode : Bool := false
  stackSize : Option Nat := none
  deriving DecidableEq, Inhabited

/-- What the arguments ask for. -/
inductive Request where
  | help
  | version
  | index (settings : Settings)
  deriving DecidableEq, Inhabited

/-- Arguments that ask for nothing sensible. -/
inductive UsageError where
  | unexpected (argument : String)
  | missingValue (option : String)
  | invalidValue (option value : String)
  | excessValue (option value : String)
  | repeated (option : String)
  deriving DecidableEq, Inhabited

namespace UsageError

/-- What the user is told. -/
def message : UsageError → String
  | unexpected argument => "unexpected argument '" ++ argument ++ "' found"
  | missingValue option => "a value is required for '" ++ option ++ "' but none was supplied"
  | invalidValue option value => "invalid value '" ++ value ++ "' for '" ++ option ++ "'"
  | excessValue option value =>
    "unexpected value '" ++ value ++ "' for '" ++ option ++ "' found; no more were expected"
  | repeated option => "the argument '" ++ option ++ "' cannot be used multiple times"

end UsageError

/-- The options that take a value. -/
inductive ValueOption where
  | logLevel
  | stackSize
  deriving DecidableEq, Inhabited

namespace ValueOption

def name : ValueOption → String
  | logLevel => "--log-level"
  | stackSize => "--stack-size"

end ValueOption

/-- The shape of a single argument. -/
inductive Argument where
  /-- Two dashes alone: all that follows is no option. -/
  | separator
  | help
  | version
  | dumpBytecode
  | valueOption (option : ValueOption) (value : Option String)
  /-- A value for an option that takes none. -/
  | excessValue (option value : String)
  | unknown
  deriving DecidableEq, Inhabited

namespace Argument

/-- The name of a long option, and the value after its first equals sign. -/
def splitValue (argument : String) : String × Option String :=
  let name := argument.toList.takeWhile (· != '=')
  match argument.toList.drop name.length with
  | [] => (argument, none)
  | _ :: value => (String.ofList name, some (String.ofList value))

/-- Reads a single argument. Of a group of short options the first one decides. -/
def ofString (argument : String) : Argument :=
  match argument.toList with
  | ['-', '-'] => separator
  | '-' :: '-' :: _ =>
    match splitValue argument with
    | ("--help", none) => help
    | ("--version", none) => version
    | ("--dump-bytecode", none) => dumpBytecode
    | ("--log-level", value) => valueOption .logLevel value
    | ("--stack-size", value) => valueOption .stackSize value
    | (name, some value) =>
      if name ∈ ["--help", "--version", "--dump-bytecode"] then excessValue name value else unknown
    | (_, none) => unknown
  | '-' :: 'h' :: _ => help
  | '-' :: 'V' :: _ => version
  | _ => unknown

end Argument

/-- Whether an argument can be the value of the option before it. -/
def isValue (argument : String) : Bool :=
  match argument.toList with
  | '-' :: _ :: _ => false
  | _ => true

/-- A size of at most 64 bits: decimal digits after an optional plus sign. -/
def readSize? (text : String) : Option Nat :=
  let digits := match text.toList with
    | '+' :: digits => digits
    | digits => digits
  if digits.isEmpty || !digits.all Char.isDigit then
    none
  else
    let size := digits.foldl (fun size digit => 10 * size + (digit.toNat - '0'.toNat)) 0
    if size < UInt64.size then some size else none

/-- Makes the setting of an option with a value. -/
def set (settings : Settings) (option : ValueOption) (value : String) :
    Except UsageError Settings :=
  match option with
  | .logLevel =>
    if settings.logLevel.isSome then .error (.repeated option.name)
    else .ok { settings with logLevel := some value }
  | .stackSize =>
    if settings.stackSize.isSome then .error (.repeated option.name)
    else match readSize? value with
      | some size => .ok { settings with stackSize := some size }
      | none => .error (.invalidValue option.name value)

/-- Reads the arguments that follow those of `settings`. -/
def read (settings : Settings) : List String → Except UsageError Request
  | [] => .ok (.index settings)
  | argument :: rest =>
    match Argument.ofString argument with
    | .help => .ok .help
    | .version => .ok .version
    | .separator =>
      match rest with
      | [] => .ok (.index settings)
      | extra :: _ => .error (.unexpected extra)
    | .dumpBytecode =>
      if settings.dumpBytecode then .error (.repeated argument)
      else read { settings with dumpBytecode := true } rest
    | .valueOption option (some value) =>
      match set settings option value with
      | .ok settings => read settings rest
      | .error error => .error error
    | .valueOption option none =>
      match rest with
      | [] => .error (.missingValue option.name)
      | value :: rest =>
        if isValue value then
          match set settings option value with
          | .ok settings => read settings rest
          | .error error => .error error
        else
          .error (.missingValue option.name)
    | .excessValue option value => .error (.excessValue option value)
    | .unknown => .error (.unexpected argument)

/-- What the program leaves behind. -/
structure Answer where
  exitCode : UInt8
  stdout : String := ""
  stderr : String := ""
  deriving Inhabited

def versionText : String := "iseq-indexer 0.1.0\n"

def helpText : String :=
  "Usage: iseq-indexer [OPTIONS]\n\n" ++
    "Options:\n" ++
    "      --log-level <LOG_LEVEL>    Default log filter [default: info]\n" ++
    "      --dump-bytecode            Dump the demo instruction sequence\n" ++
    "      --stack-size <STACK_SIZE>  Initial value stack capacity [default: 64]\n" ++
    "  -h, --help                     Print help\n" ++
    "  -V, --version                  Print version\n"

/-- The levels that a log filter lets through. -/
def shownLevels (filter : String) : List Level :=
  match String.ofList (filter.toList.map Char.toLower) with
  | "error" | "warn" => [.error]
  | "info" => [.error, .info]
  | "debug" | "trace" => [.error, .info, .debug]
  | _ => []

/-- The events that a log filter lets through, one on each line. -/
def logText (filter : String) (events : Array Event) : String :=
  let shown := events.toList.filter fun event => event.level ∈ shownLevels filter
  String.join (shown.map fun event => "[" ++ event.level.name ++ "] " ++ event.message ++ "\n")

/-- Indexes the demonstration. -/
def indexDemo (settings : Settings) : Answer :=
  let listing := if settings.dumpBytecode then Demo.program.listing else ""
  let indexer := Indexing.start .nil { state := {} }
  match (Indexing.index Indexing.maxLevels Demo.program).run.run indexer with
  | none => { exitCode := 1, stdout := listing }
  | some (result, machine) =>
    let log := logText (settings.logLevel.getD "info") machine.host.events
    match result with
    | .ok _ =>
      { exitCode := 0, stdout := listing ++ machine.host.state.outline, stderr := log }
    | .error error =>
      { exitCode := 1
        stdout := listing
        stderr := log ++ "Error indexing " ++ Demo.program.path ++ ": " ++ error.message ++ "\n" }

/-- What the program does when it is started with some arguments. -/
def answer (arguments : List String) : Answer :=
  match read {} arguments with
  | .error error =>
    { exitCode := 2
      stderr := "error: " ++ error.message ++ "\n\nFor more information, try '--help'.\n" }
  | .ok .help => { exitCode := 0, stdout := helpText }
  | .ok .version => { exitCode := 0, stdout := versionText }
  | .ok (.index settings) => indexDemo settings

end CommandLine

end ClassIndex
