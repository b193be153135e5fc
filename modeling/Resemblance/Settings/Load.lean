import Resemblance.Json.Reader
import Resemblance.Settings.Engine
import Resemblance.Settings.Gradeable
import Resemblance.Tree

/-!
# Loading settings

The settings of a gradeable stand in its directory.  Those of the engine stand in a file that the
user names, which then has to be there, or else beside the settings of the gradeable, or else
nowhere, and then they have their defaults.

## What is here

* `Settings` — the settings of a run.
* `Settings.check` — first those of the gradeable, then those of the engine.
* `Settings.load` — reads both files and checks what they say.
-/

set_option autoImplicit false
namespace Resemblance

/-- The settings of a run. -/
structure Settings where
  gradeable : Settings.Gradeable
  engine : Settings.Engine

namespace Settings

/-- The name of the file with the settings of a gradeable. -/
def gradeableFile : String := "config.json"

/-- The name of the file with the settings of the engine. -/
def engineFile : String := "lichen_config.json"

/-- The first fault of the settings, if there is one. -/
def check (s : Settings) : Except SettingsFault Unit := do
  s.gradeable.check
  s.engine.check

/-- What a JSON file says.  A file that cannot be read is a fault of the settings like any other. -/
def readFile {α : Type} (t : Tree) (path : Path) (ofJson? : Json.Value → Option α) :
    Except Fault α :=
  match t.readText path with
  | .error e => .error (.settings (.unreadable path.text e))
  | .ok text =>
    match (Json.parse? text).bind ofJson? with
    | none => .error (.settings (.malformed path.text))
    | some a => .ok a

/-- The settings of the engine, from the file that is named or found in the directory. -/
def loadEngine (t : Tree) (root : Path) (named : Option Path) : Except Fault Engine :=
  let path := named.getD (root / engineFile)
  if t.isFile path then readFile t path Engine.ofJson?
  else if named.isSome then .error (.settings (.noEngineFile path.text))
  else .ok {}

/-- The settings for the gradeable in a directory. -/
def load (t : Tree) (root : Path) (engine : Option Path) : Except Fault Settings := do
  let gradeable ← readFile t (root / gradeableFile) Gradeable.ofJson?
  let engine ← loadEngine t root engine
  let settings : Settings := ⟨gradeable, engine⟩
  settings.check.mapError .settings
  return settings

end Settings
end Resemblance
