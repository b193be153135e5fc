import Resemblance.Ledger
import Resemblance.Percent
import Resemblance.Ranking.Score
import Std.Data.ExtTreeMap

/-!
# Rankings

Two rankings are made.  The *peers* of a submission are ranked by the share of its fingerprints
they have, and *overall* every student is ranked by the score of their most suspicious version.

## What is here

* `Summary` — what the overall ranking needs to know of a submission.
* `Standing` — an entry of a ranking, and `Standing.order`, in which rankings are sorted: by score,
  or by percentage unless both entries have a score, greatest first; then by student, version and
  gradeable.
* `rankOverall` — one standing for each student.
* `Ledger.rankPeers` — one standing for each peer of a ledger.
-/

set_option autoImplicit false
namespace Resemblance

open Std

/-! ## Summaries -/

/-- What is left of a submission once it has been compared. -/
structure Summary where
  student : String
  version : Version
  /-- The suspicious share, in percent. -/
  percent : Double
  /-- The number of suspicious positions. -/
  matched : Nat

namespace Ledger

/-- The suspicious share of the submission, in percent of its different fingerprints. -/
def percent (l : Ledger) : Double :=
  percentOf l.matchedCount l.submission.distinctCount

/-- The summary of a ledger. -/
def summary (l : Ledger) : Summary :=
  ⟨l.submission.student, l.submission.version, l.percent, l.matchedCount⟩

end Ledger

/-- Whether a version stands for its student rather than another one: it has the greater share, or
the same share and the smaller number. -/
def Summary.precedes (a b : Summary) : Bool :=
  a.percent.toFloat > b.percent.toFloat ||
    (a.percent.toFloat == b.percent.toFloat && a.version < b.version)

/-! ## Standings -/

/-- An entry of a ranking. -/
structure Standing where
  student : String
  version : Version
  /-- The gradeable of a peer. -/
  gradeable : Option String
  percent : Double
  score : Option Double

namespace Standing

/-- The values by which two entries are compared first. -/
def values (a b : Standing) : Double × Double :=
  match a.score, b.score with
  | some x, some y => (x, y)
  | _, _ => (a.percent, b.percent)

/-- A missing gradeable comes before all others. -/
def gradeableOrder : Option String → Option String → Ordering
  | none, none => .eq
  | none, some _ => .lt
  | some _, none => .gt
  | some a, some b => compare a b

/-- The order of a ranking. -/
def order (a b : Standing) : Ordering :=
  let (x, y) := values a b
  (compare y x).then <| (compare a.student b.student).then <|
    (compare a.version b.version).then <| gradeableOrder a.gradeable b.gradeable

/-- Standings in the order of a ranking. -/
def sort (standings : List Standing) : List Standing :=
  standings.mergeSort fun a b => (order a b).isLE

end Standing

/-! ## The overall ranking -/

/-- The version that stands for each student. -/
def bestVersions (summaries : List Summary) : ExtTreeMap String Summary :=
  summaries.foldl
    (fun best s => best.alter s.student fun
      | none => some s
      | some b => some (if s.precedes b then s else b))
    ∅

/-- The largest number of suspicious positions in a list of summaries. -/
def mostMatched (summaries : List Summary) : Nat :=
  (summaries.map Summary.matched).foldl max 0

/-- The standing of a version in a run where the largest number of suspicious positions is
`most`. -/
def Summary.standing (s : Summary) (weights : Weights) (most : Nat) : Standing where
  student := s.student
  version := s.version
  gradeable := none
  percent := s.percent
  score := some (score weights s.percent s.matched most)

/-- The ranking of all students. -/
def rankOverall (summaries : List Summary) (weights : Weights) : List Standing :=
  Standing.sort <|
    (bestVersions summaries).values.map (·.standing weights (mostMatched summaries))

/-! ## The ranking of peers -/

/-- The standing of a peer that has `matched` of the `distinct` fingerprints of a submission. -/
def Peer.standing (peer : Peer) (matched distinct : Nat) : Standing where
  student := peer.student
  version := peer.version
  gradeable := some peer.gradeable
  percent := percentOf matched distinct
  score := none

/-- The ranking of the peers of a submission. -/
def Ledger.rankPeers (l : Ledger) : List Standing :=
  let distinct := l.submission.distinctCount
  Standing.sort (l.tally.matched.map fun entry => entry.1.standing entry.2 distinct)

end Resemblance
