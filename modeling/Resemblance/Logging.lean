import Resemblance.Notice
import Resemblance.Tree

/-!
# Where and how much is logged

## What is here

* `LogLevel` — how much is logged, and `LogLevel.ofName?`, which takes the names of the levels in
  any case.
* `LogLevel.text` — the lines of the log that a level lets through.
* `Moment` and `logFile` — the name of a log file tells when it was begun.
* `openLog` — makes the directory of a log and an empty log file in it.
-/

set_option autoImplicit false
namespace Resemblance

/-- How much is logged. -/
inductive LogLevel where
  | off
  | error
  | warn
  | info
  | debug
  | trace
  deriving DecidableEq

/-- The level of a name.  Letters outside ASCII have no other case. -/
def LogLevel.ofName? (name : String) : Option LogLevel :=
  match String.ofList (name.toList.map Char.toLower) with
  | "error" => some .error
  | "warn" => some .warn
  | "info" => some .info
  | "debug" => some .debug
  | "trace" => some .trace
  | "none" | "off" => some .off
  | _ => none

/-- Whether notices of a severity are logged. -/
def LogLevel.shows : LogLevel → Severity → Bool
  | .off, _ => false
  | .error, severity => severity == .error
  | _, _ => true

/-- The name of a severity in the log. -/
def Severity.name : Severity → String
  | .warning => "WARN"
  | .error => "ERROR"

/-- A notice in the log.  If its text has several lines, those after the first are indented, so that
only the first begins with a bracket. -/
def logLine (n : Notice) : String :=
  let body := n.message.toList.flatMap fun c => if c = '\n' then "\n    ".toList else [c]
  "[" ++ n.severity.name ++ "] " ++ String.ofList body ++ "\n"

/-- The text of a log at a level. -/
def LogLevel.text (level : LogLevel) (notices : List Notice) : String :=
  String.join ((notices.filter (level.shows ·.severity)).map logLine)

/-- A minute of a year. -/
structure Moment where
  month : Nat
  day : Nat
  hour : Nat
  minute : Nat

/-- A number in two digits. -/
def twoDigits (n : Nat) : String :=
  if n < 10 then "0" ++ toString n else toString n

/-- The name of the log file that is begun at a moment. -/
def logFile (m : Moment) : String :=
  "compare_hashes_" ++ twoDigits m.month ++ "_" ++ twoDigits m.day ++ "_" ++ twoDigits m.hour ++
    "_" ++ twoDigits m.minute ++ ".log"

/-- The tree after making a directory, if it is missing, and an empty log file in it. -/
def openLog (t : Tree) (directory : String) (m : Moment) : Tree × Except Fault Unit :=
  match t.makeDirectories directory with
  | (t, .error e) => (t, .error (.file e))
  | (t, .ok ()) =>
    match t.write (.given directory) (logFile m) "" with
    | .ok t => (t, .ok ())
    | .error e => (t, .error (.file e))

end Resemblance
