import Resemblance.Logging
import Resemblance.Run

/-!
# The command line

```
compare_hashes [options] <gradeable directory>
```

## What is here

* `Invocation` — what the user asks for.
* `Request.ofArguments?` — reads the arguments, from left to right.  The first thing wrong ends the
  reading, and so does a request for help or for the version.
* `Reply` — what is shown to the user, and the exit status: 0 for success, 1 when an output file
  could not be written, 2 when there was no run.
* `execute` — does what the user asks for.
-/

set_option autoImplicit false
namespace Resemblance

/-! ## Arguments -/

/-- What the user asks for in a run. -/
structure Invocation where
  root : String
  /-- The file with the settings of the engine. -/
  engine : Option String
  logDirectory : Option String
  logLevel : String
  /-- Whether submissions may be compared at the same time. -/
  parallel : Bool
  /-- Whether progress is not shown. -/
  quiet : Bool
  deriving DecidableEq

/-- What the user asks for. -/
inductive Request where
  | help
  | version
  | run (invocation : Invocation)
  deriving DecidableEq

/-- The options that have a value. -/
inductive ValueOption where
  | engine
  | logLevel
  | logDirectory
  deriving DecidableEq

/-- The options that have no value. -/
inductive Flag where
  | parallel
  | quiet
  | help
  | version
  deriving DecidableEq

/-- The option of a long name. -/
def ValueOption.ofName? : String → Option ValueOption
  | "lichen-config" => some .engine
  | "log-level" => some .logLevel
  | "log-dir" => some .logDirectory
  | _ => none

/-- The flag of a long name. -/
def Flag.ofName? : String → Option Flag
  | "rayon" => some .parallel
  | "no-progress" => some .quiet
  | "help" => some .help
  | "version" => some .version
  | _ => none

/-- The flag of a short name. -/
def Flag.ofLetter? : Char → Option Flag
  | 'h' => some .help
  | 'V' => some .version
  | _ => none

/-- What was read from the arguments so far. -/
structure Arguments where
  root : Option String := none
  engine : Option String := none
  logDirectory : Option String := none
  logLevel : Option String := none
  parallel : Bool := false
  quiet : Bool := false

namespace Arguments

/-- A directory to run over.  There is only one, and its path is not empty. -/
def withRoot (a : Arguments) (root : String) : Option Arguments :=
  if a.root.isSome ∨ root = "" then none else some { a with root := some root }

/-- An option with its value.  No option is repeated, and paths are not empty. -/
def withValue (a : Arguments) : ValueOption → String → Option Arguments
  | .engine, value =>
    if a.engine.isSome ∨ value = "" then none else some { a with engine := some value }
  | .logLevel, value =>
    if a.logLevel.isSome then none else some { a with logLevel := some value }
  | .logDirectory, value =>
    if a.logDirectory.isSome ∨ value = "" then none else some { a with logDirectory := some value }

/-- The request, once all arguments are read. -/
def request? (a : Arguments) : Option Request :=
  a.root.map fun root =>
    .run ⟨root, a.engine, a.logDirectory, a.logLevel.getD "info", a.parallel, a.quiet⟩

/-- Reads arguments none of which is an option. -/
def readOperands (a : Arguments) : List String → Option Request
  | [] => a.request?
  | operand :: rest => do (← a.withRoot operand).readOperands rest

/-- The parts of an argument. -/
inductive Shape where
  /-- Two dashes alone: no options follow. -/
  | separator
  /-- Two dashes and a name, and what follows an equals sign. -/
  | long (name : String) (value : Option String)
  /-- A dash and letters. -/
  | short (letter : Char)
  | operand (text : String)

/-- The shape of an argument.  A single dash is no option. -/
def Shape.of (argument : String) : Shape :=
  match argument.toList with
  | ['-', '-'] => .separator
  | '-' :: '-' :: rest =>
    let name := String.ofList (rest.takeWhile (· != '='))
    match rest.dropWhile (· != '=') with
    | [] => .long name none
    | _ :: value => .long name (some (String.ofList value))
  | '-' :: letter :: _ => .short letter
  | _ => .operand argument

/-- Reads a flag.  Help and version end the reading. -/
def withFlag (a : Arguments) : Flag → Option (Arguments ⊕ Request)
  | .parallel => if a.parallel then none else some (.inl { a with parallel := true })
  | .quiet => if a.quiet then none else some (.inl { a with quiet := true })
  | .help => some (.inr .help)
  | .version => some (.inr .version)

/-- Reads arguments.  An option without equals sign has the next argument as its value, unless that
looks like an option itself. -/
def read (a : Arguments) : List String → Option Request
  | [] => a.request?
  | argument :: rest =>
    match Shape.of argument with
    | .separator => a.readOperands rest
    | .operand text => do (← a.withRoot text).read rest
    | .short letter => do
      match ← a.withFlag (← Flag.ofLetter? letter) with
      | .inl a => a.read rest
      | .inr request => some request
    | .long name (some value) => do (← a.withValue (← ValueOption.ofName? name) value).read rest
    | .long name none =>
      match ValueOption.ofName? name with
      | none => do
        match ← a.withFlag (← Flag.ofName? name) with
        | .inl a => a.read rest
        | .inr request => some request
      | some option =>
        match rest with
        | [] => none
        | value :: rest =>
          match Shape.of value with
          | .operand value => do (← a.withValue option value).read rest
          | _ => none

end Arguments

/-- What the user asks for, unless the arguments are wrong. -/
def Request.ofArguments? (arguments : List String) : Option Request :=
  Arguments.read {} arguments

/-! ## Doing it -/

/-- What the user gets to see.  Each line of text ends with a line feed. -/
structure Reply where
  exit : UInt32
  output : String := ""
  errors : String := ""

/-- The name and version of the program. -/
def versionText : String := "compare_hashes 0.1.0"

/-- How the program is called. -/
def usageText : String :=
  "Usage: compare_hashes [--lichen-config FILE] [--rayon] [--log-level LEVEL] [--log-dir DIRECTORY]"
    ++ " [--no-progress] GRADEABLE_ROOT"

/-- The level that a name stands for, and what is said about a name that stands for none. -/
def chooseLevel (name : String) : LogLevel × String :=
  match LogLevel.ofName? name with
  | some level => (level, "")
  | none => (.info, "Invalid log level '" ++ name ++ "', defaulting to Info\n")

/-- The reply to a run, and what is logged of it. -/
def Reply.ofRun (r : Logged RunSummary) : Reply × List Notice :=
  match r.result with
  | .error fault => ({ exit := 2, errors := "ERROR: " ++ fault.message ++ "\n" }, r.notices)
  | .ok summary =>
    if summary.isSuccess then
      ({ exit := 0
         output := "Compared " ++ toString summary.submissions ++ " submissions, " ++
          toString summary.withMatches ++ " with suspicious matches\n" }, r.notices)
    else
      ({ exit := 1, errors := Report.ofLines (summary.failures.map Fault.message) },
        r.notices ++ [.failures summary.failures.length])

/-- Loads the settings and runs. -/
def Invocation.compare (i : Invocation) (t : Tree) : Tree × Reply × List Notice :=
  match Settings.load t (.given i.root) (i.engine.map Path.given) with
  | .error fault =>
    (t, {
      exit := 2
      errors := "ERROR with " ++ Text.quoted i.root ++ ": " ++ fault.message ++ "\n" }, [])
  | .ok settings =>
    let (t, result) := run t (.given i.root) settings
    (t, Reply.ofRun result)

/-- Opens the log, loads the settings and runs.  The log is shown to the user unless it has a
directory. -/
def Invocation.execute (i : Invocation) (t : Tree) (now : Moment) : Tree × Reply :=
  let (level, warning) := chooseLevel i.logLevel
  match i.logDirectory with
  | none =>
    let (t, reply, notices) := i.compare t
    (t, { reply with errors := warning ++ level.text notices ++ reply.errors })
  | some directory =>
    match openLog t directory now with
    | (t, .error fault) =>
      (t, {
        exit := 2
        errors := warning ++ "Unable to set up logging: " ++ fault.message ++ "\n" })
    | (t, .ok ()) =>
      let (t, reply, notices) := i.compare t
      let logged := t.write (.given directory) (logFile now) (level.text notices)
      (logged.toOption.getD t, { reply with errors := warning ++ reply.errors })

/-- Does what the arguments ask for, at a moment. -/
def execute (arguments : List String) (t : Tree) (now : Moment) : Tree × Reply :=
  match Request.ofArguments? arguments with
  | none => (t, { exit := 2, errors := usageText ++ "\n" })
  | some .help => (t, { exit := 0, output := usageText ++ "\n" })
  | some .version => (t, { exit := 0, output := versionText ++ "\n" })
  | some (.run invocation) => invocation.execute t now

end Resemblance
