import Resemblance.Double

/-!
# Scores

The score of a submission blends two signals: which share of it is suspicious, and how many
suspicious positions it has compared to the submission with the most of them.

## What is here

* `Weights` — how much each signal counts.
* `score` — the score of a submission.
-/

set_option autoImplicit false
namespace Resemblance

/-- How much each signal counts. -/
structure Weights where
  /-- The weight of the suspicious share. -/
  percent : Double
  /-- The weight of the number of suspicious positions. -/
  matched : Double

/-- Both signals count the same. -/
def Weights.balanced : Weights := ⟨0.5, 0.5⟩

/-- The score of a submission with the given share, in percent, and number of suspicious positions,
in a run where the largest such number is `most`. -/
def score (w : Weights) (percent : Double) (matched most : Nat) : Double :=
  let relative : Double := if most = 0 then 0 else .ofNat matched / .ofNat most
  w.percent * (percent / 100) + w.matched * relative

end Resemblance
