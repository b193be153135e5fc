import Resemblance.Fault
import Resemblance.Json.Fields
import Resemblance.Ranking.Score

/-!
# Settings of the engine

The engine has settings of its own that hold for all gradeables of an installation.

## What is here

* `Weights.check` — both weights lie between zero and one, and they sum to one.
* `Settings.Engine` — the settings and their defaults, how they are read from JSON and checked.
-/

set_option autoImplicit false
namespace Resemblance

open Json

/-- The largest distance from one that the sum of the weights may have. -/
def Weights.tolerance : Float := 1e-9

/-- Whether a weight lies between zero and one. -/
def Weights.inRange (value : Float) : Bool :=
  0 ≤ value && value ≤ 1

/-- The first fault of the weights, if there is one. -/
def Weights.check (w : Weights) : Except SettingsFault Unit :=
  let percent := w.percent.toFloat
  let matched := w.matched.toFloat
  if !inRange percent then .error (.weight .percent percent)
  else if !inRange matched then .error (.weight .matched matched)
  else
    let total := percent + matched
    if (total - 1).abs > tolerance then .error (.weightSum total) else .ok ()

/-- The weights from JSON.  Both have to be given. -/
def Weights.ofJson? (v : Value) : Option Weights := do
  match ← v.fields? ["percent", "matches"] with
  | [some percent, some matched] => some ⟨.ofFloat (← percent.float?), .ofFloat (← matched.float?)⟩
  | _ => none

namespace Settings

/-- The settings of the engine. -/
structure Engine where
  /-- The most windows in one group of a region. -/
  positionCap : Nat := 100
  weights : Weights := .balanced
  /-- Whether submissions may be compared at the same time. -/
  parallel : Bool := false

namespace Engine

/-- The numbers of the settings are below this one. -/
def numberBound : Nat := UInt64.size

/-- The settings from JSON. -/
def ofJson? (v : Value) : Option Engine := do
  match ← v.fields? ["max_matching_positions", "score_weights", "parallel"] with
  | [cap, weights, parallel] =>
    some {
      positionCap := ← Value.fieldOr 100 (Value.nat? numberBound) cap
      weights := ← Value.fieldOr .balanced Weights.ofJson? weights
      parallel := ← Value.fieldOr false Value.bool? parallel }
  | _ => none

/-- The first fault of the settings, if there is one. -/
def check (e : Engine) : Except SettingsFault Unit :=
  if e.positionCap < 1 then .error (.positionCap e.positionCap) else e.weights.check

end Engine
end Settings
end Resemblance
