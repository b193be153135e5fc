import Resemblance.Index
import Resemblance.Ledger

/-!
# Classifying a submission

Each fingerprint of a submission is looked up in the code that was provided, in the index of the
same gradeable and in those of earlier ones, and each answer becomes a list of marks for the
ledger.  Positions are visited in ascending order.

## What is here

* `Reference` — what submissions are compared with.
* `Reference.marksAt` — the marks of one position.  Provided code is marked as such and nothing
  else.  A fingerprint that other students of the same gradeable have is common when more than
  `threshold` students share it, the owner included, and suspicious otherwise.  Earlier gradeables
  never make a fingerprint common, and the owner's own earlier work counts.
* `Reference.marks` — the marks of a submission.
* `Stats` — how many marks of each kind were made; suspicious ones count only if they were kept.
* `classify` — the ledger after all marks, and their statistics.
-/

set_option autoImplicit false
namespace Resemblance

/-- What submissions are compared with. -/
structure Reference where
  /-- The submissions for the same gradeable. -/
  current : Index
  provided : Option ProvidedCode
  /-- The submissions for earlier gradeables. -/
  others : List Index
  /-- How many students may share a fingerprint before it is common. -/
  threshold : Nat

namespace Reference

/-- Whether more students than the threshold share a fingerprint. -/
def isCommon (r : Reference) (f : Fingerprint) : Bool :=
  r.threshold < r.current.studentCount f

/-- Whether a fingerprint belongs to the provided code. -/
def isProvided (r : Reference) (f : Fingerprint) : Bool :=
  r.provided.any (·.contains f)

/-- The students of the same gradeable who have a fingerprint, without the owner. -/
def otherBearers (r : Reference) (owner : String) (f : Fingerprint) : Bearers :=
  (r.current.bearers f).erase owner

/-- The locations of a fingerprint in earlier gradeables. -/
def earlierHits (r : Reference) (f : Fingerprint) : List Location :=
  r.others.flatMap (·.locations f)

/-- The marks of one position with the given fingerprint. -/
def marksAt (r : Reference) (owner : String) (f : Fingerprint) (p : Position) : List Mark :=
  if r.isProvided f then [.provided p]
  else
    let others := r.otherBearers owner f
    let current :=
      if others.isEmpty then []
      else if r.isCommon f then [.common p]
      else (others.locations r.current.label).map (.suspicious p)
    current ++ (r.earlierHits f).map (.suspicious p)

/-- The marks of a submission, by ascending position. -/
def marks (r : Reference) (s : Submission) : List Mark :=
  s.positions.flatMap fun entry => r.marksAt s.student entry.1 entry.2

end Reference

/-! ## Statistics -/

/-- How many marks were made of each kind. -/
structure Stats where
  provided : Nat := 0
  common : Nat := 0
  suspicious : Nat := 0
  deriving DecidableEq

/-- One more mark.  `kept` tells whether the ledger takes it. -/
def Stats.count (s : Stats) (mark : Mark) (kept : Bool) : Stats :=
  match mark with
  | .provided _ => { s with provided := s.provided + 1 }
  | .common _ => { s with common := s.common + 1 }
  | .suspicious _ _ => if kept then { s with suspicious := s.suspicious + 1 } else s

/-- The statistics of marks that are recorded in order, starting from the ledger `l`. -/
def Ledger.stats (l : Ledger) (marks : List Mark) : Stats :=
  (marks.foldl
    (fun (state : Ledger × Stats) mark =>
      (state.1.record mark, state.2.count mark (state.1.admits mark.position)))
    (l, {})).2

/-- The ledger of a submission after comparing it, for windows of `width` tokens. -/
def classify (r : Reference) (s : Submission) (width : Nat) : Ledger :=
  (Ledger.ofSubmission s width).recordAll (r.marks s)

/-- The statistics of comparing a submission. -/
def classifyStats (r : Reference) (s : Submission) (width : Nat) : Stats :=
  (Ledger.ofSubmission s width).stats (r.marks s)

end Resemblance
