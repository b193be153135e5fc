import Resemblance.Decimal.Shortest
import Resemblance.FileError
import Resemblance.Text.Quoted

/-!
# Faults

Everything that can go wrong, by cause, and the text of each cause.

## What is here

* `Defect` — what is wrong with a word of a fingerprint file or with the name of a directory.
* `SettingsFault` — what is wrong with the settings.
* `Fault` — all causes; `Fault.message` is the text shown to the user.
* `Fault.isFatal` — whether a cause ends the run.  Only a failure to write does not.
-/

set_option autoImplicit false
namespace Resemblance

/-- What is wrong with a word or a name in the input. -/
inductive Defect where
  | badFingerprint (word : String)
  | badVersion (name : String)
  deriving DecidableEq

/-- The text of a defect. -/
def Defect.message : Defect → String
  | .badFingerprint word => "invalid fingerprint token " ++ Text.quoted word
  | .badVersion name => "invalid version directory " ++ Text.quoted name

/-- The two weights of a score. -/
inductive WeightName where
  | percent
  | matched
  deriving DecidableEq

/-- The name of a weight in the settings. -/
def WeightName.key : WeightName → String
  | .percent => "percent"
  | .matched => "matches"

/-- What is wrong with the settings. -/
inductive SettingsFault where
  | emptyGradeable
  | hashSize (value : Nat)
  | threshold (value : Nat)
  | positionCap (value : Nat)
  | weight (name : WeightName) (value : Float)
  | weightSum (total : Float)
  | unreadable (path : String) (error : FileError)
  /-- A file that is not JSON of the right form.  What a JSON reader would say of it is left out. -/
  | malformed (path : String)
  | noEngineFile (path : String)
  | noGradeableDirectory (path : String)
  | noUsersDirectory (path : String)

/-- The text of a fault in the settings. -/
def SettingsFault.message : SettingsFault → String
  | .emptyGradeable => "gradeable must not be empty"
  | .hashSize n => "Invalid hash_size (must be at least 1): " ++ toString n
  | .threshold n => "Invalid threshold (must be at least 2): " ++ toString n
  | .positionCap n => "Invalid max_matching_positions (must be at least 1): " ++ toString n
  | .weight name value =>
    "Invalid score weight " ++ name.key ++ " (must be between 0 and 1): " ++ Decimal.shortest value
  | .weightSum total => "Score weights must sum to 1, got " ++ Decimal.shortest total
  | .unreadable path error => "Unable to read " ++ Text.quoted path ++ ": " ++ error.message
  | .malformed path => "Malformed " ++ Text.quoted path
  | .noEngineFile path => "Engine config file does not exist: " ++ Text.quoted path
  | .noGradeableDirectory path => "Gradeable directory does not exist: " ++ Text.quoted path
  | .noUsersDirectory path => "Unable to find users directory: " ++ Text.quoted path

/-- Why an operation failed. -/
inductive Fault where
  /-- A file or directory could not be read or made. -/
  | file (error : FileError)
  | settings (fault : SettingsFault)
  | input (defect : Defect)
  /-- A defect in a file or directory of the given path. -/
  | inputIn (path : String) (defect : Defect)
  /-- The file of the given path could not be written or removed. -/
  | output (path : String) (error : FileError)

namespace Fault

/-- The text of a defect as a fault of its own. -/
def inputMessage (d : Defect) : String :=
  "Malformed input: " ++ d.message

/-- The text shown to the user. -/
def message : Fault → String
  | .file error => "IO error: " ++ error.message
  | .settings fault => "Configuration error: " ++ fault.message
  | .input defect => inputMessage defect
  | .inputIn path defect =>
    "Malformed input: " ++ Text.quoted path ++ ": " ++ inputMessage defect
  | .output path error => "Failed to write " ++ Text.quoted path ++ ": " ++ error.message

/-- Whether the fault ends the run. -/
def isFatal : Fault → Bool
  | .output _ _ => false
  | _ => true

end Fault
end Resemblance
