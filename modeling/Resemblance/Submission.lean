import Resemblance.Fingerprint
import Resemblance.Position
import Resemblance.Version
import Std.Data.ExtTreeSet

/-!
# Submissions

A submission is what one student handed in as one version of a gradeable, reduced to its
fingerprints.

## What is here

* `Submission` — student, version and fingerprints in order.
* `Submission.fingerprintAt?` — the fingerprint at a position; positions count from one.
* `Submission.positions` — every fingerprint with its position, in ascending order.
* `Submission.distinctCount` — how many different fingerprints there are.
-/

set_option autoImplicit false
namespace Resemblance

/-- One student's version of a gradeable, as its sequence of fingerprints. -/
structure Submission where
  student : String
  version : Version
  fingerprints : Array Fingerprint
  deriving DecidableEq

namespace Submission

/-- The number of fingerprints. -/
def size (s : Submission) : Nat :=
  s.fingerprints.size

/-- The fingerprint at a position, the first position being one. -/
def fingerprintAt? (s : Submission) (p : Position) : Option Fingerprint :=
  if p = 0 then none else s.fingerprints[p.toNat - 1]?

/-- The fingerprints with their positions, in ascending order. -/
def positions (s : Submission) : List (Fingerprint × Position) :=
  Position.numbered s.fingerprints.toList

/-- The number of different fingerprints. -/
def distinctCount (s : Submission) : Nat :=
  (Std.ExtTreeSet.ofList s.fingerprints.toList compare).size

theorem fingerprintAt?_eq_some_iff (s : Submission) (p : Position) (f : Fingerprint) :
    s.fingerprintAt? p = some f ↔ 1 ≤ p.toNat ∧ s.fingerprints[p.toNat - 1]? = some f := by
  rw [fingerprintAt?, Position.one_le_toNat_iff]
  split
  · rename_i h
    simp [h]
  · rename_i h
    exact (and_iff_right h).symm

theorem ne_zero_of_fingerprintAt? {s : Submission} {p : Position} {f : Fingerprint}
    (h : s.fingerprintAt? p = some f) : p ≠ 0 :=
  (Position.one_le_toNat_iff p).1 ((fingerprintAt?_eq_some_iff s p f).1 h).1

theorem fingerprintAt?_isSome_iff (s : Submission) (p : Position) :
    (s.fingerprintAt? p).isSome = true ↔ 1 ≤ p.toNat ∧ p.toNat ≤ s.size := by
  simp only [Option.isSome_iff_exists, fingerprintAt?_eq_some_iff, exists_and_left]
  refine and_congr_right fun hp => ?_
  rw [← Option.isSome_iff_exists, isSome_getElem?, size]
  omega

theorem mem_positions_iff (s : Submission) (f : Fingerprint) (p : Position) :
    (f, p) ∈ s.positions ↔ s.fingerprintAt? p = some f := by
  rw [positions, Position.mem_numbered_iff, Array.getElem?_toList, fingerprintAt?_eq_some_iff,
    Position.one_le_toNat_iff]

theorem mem_of_fingerprintAt? {s : Submission} {p : Position} {f : Fingerprint}
    (h : s.fingerprintAt? p = some f) : f ∈ s.fingerprints :=
  Array.mem_of_getElem? ((fingerprintAt?_eq_some_iff s p f).1 h).2

end Submission
end Resemblance
