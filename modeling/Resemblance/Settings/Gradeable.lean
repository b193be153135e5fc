import Resemblance.Fault
import Resemblance.Json.Fields
import Resemblance.Text.Words

/-!
# Settings of a gradeable

Each gradeable has a file with its settings.  It also holds settings of the steps before, whose
keys are passed over.

## What is here

* `Settings.Gradeable` — the settings and their defaults.
* `Settings.Gradeable.label` — the name under which the submissions of the gradeable are reported.
* `Settings.Gradeable.ofJson?` — reading.
* `Settings.Gradeable.check` — the first fault of the settings, if there is one.
-/

set_option autoImplicit false
namespace Resemblance
namespace Settings

open Json

/-- The settings of a gradeable. -/
structure Gradeable where
  semester : String
  course : String
  gradeable : String
  /-- The number of tokens behind one fingerprint. -/
  hashSize : Nat := 1
  /-- How many students may share a fingerprint before it is common. -/
  threshold : Nat := 5
  /-- Whether provided code is told apart. -/
  providedCodeEnabled : Bool := true
  deriving DecidableEq

namespace Gradeable

/-- Semester, course and gradeable as one name. -/
def label (g : Gradeable) : String :=
  g.semester ++ "__" ++ g.course ++ "__" ++ g.gradeable

/-- The numbers of the settings are below this one. -/
def numberBound : Nat := UInt64.size

/-- The settings from JSON. -/
def ofJson? (v : Value) : Option Gradeable := do
  let keys :=
    ["semester", "course", "gradeable", "hash_size", "threshold", "provided_code_enabled"]
  match ← v.fields? keys with
  | [some semester, some course, some gradeable, hashSize, threshold, enabled] =>
    some {
      semester := ← semester.text?
      course := ← course.text?
      gradeable := ← gradeable.text?
      hashSize := ← Value.fieldOr 1 (Value.nat? numberBound) hashSize
      threshold := ← Value.fieldOr 5 (Value.nat? numberBound) threshold
      providedCodeEnabled := ← Value.fieldOr true Value.bool? enabled }
  | _ => none

/-- The first fault of the settings, if there is one. -/
def check (g : Gradeable) : Except SettingsFault Unit :=
  if Text.isAllBlank g.gradeable then .error .emptyGradeable
  else if g.hashSize < 1 then .error (.hashSize g.hashSize)
  else if g.threshold < 2 then .error (.threshold g.threshold)
  else .ok ()

end Gradeable
end Settings
end Resemblance
