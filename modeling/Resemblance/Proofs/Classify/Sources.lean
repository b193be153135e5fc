import Resemblance.Classify
import Resemblance.Proofs.Index

/-!
# What a submission is compared with, as lists

An index is built by insertions.  The lists of what was inserted say, without any look-up, which
students share a fingerprint and where, and the questions of a comparison are answered from them.

## What is here

* `Reference.mem_otherBearers_iff` — the locations a comparison takes from the current index.
* `Holding` — the sightings of one gradeable in the order of insertion, and `Holding.Shows`.
* `Sources` — holdings, provided code and a threshold; `Sources.reference` is built from them.
* `Sources.IsProvided`, `Sources.IsCommon`, `Sources.IsHit` — what there is to say about one
  fingerprint, and that the reference says the same (`isProvided_reference` and so on).
-/

set_option autoImplicit false
namespace Resemblance

open Std

/-- The places of the other bearers are those of another student. -/
theorem Reference.mem_otherBearers_iff (r : Reference) (owner : String) (f : Fingerprint)
    (x : Location) :
    x ∈ (r.otherBearers owner f).locations r.current.label ↔
      x.peer.student ≠ owner ∧ x ∈ r.current.locations f := by
  rw [Bearers.mem_locations_iff, otherBearers, Bearers.occurrences_erase, Index.locations,
    Bearers.mem_locations_iff]
  by_cases h : owner = x.peer.student
  · simp [h]
  · simp [h, Ne.symm h]

/-! ## One gradeable -/

/-- The sightings of one gradeable, in the order in which they are inserted. -/
structure Holding where
  label : String
  seen : List Sighting

namespace Holding

/-- The index of the sightings. -/
def index (h : Holding) : Index :=
  .ofSightings h.label h.seen

/-- Whether a fingerprint was seen at a location. -/
def Shows (h : Holding) (f : Fingerprint) (x : Location) : Prop :=
  x.peer.gradeable = h.label ∧ ⟨f, x.peer.student, ⟨x.peer.version, x.position⟩⟩ ∈ h.seen

theorem mem_locations_index (h : Holding) (f : Fingerprint) (x : Location) :
    x ∈ h.index.locations f ↔ h.Shows f x :=
  Index.mem_locations_ofSightings h.label h.seen f x

end Holding

/-! ## All sources -/

/-- What a reference is built from. -/
structure Sources where
  current : Holding
  provided : Option ProvidedCode
  earlier : List Holding
  threshold : Nat

namespace Sources

variable (z : Sources)

/-- The reference with the indices of the holdings. -/
def reference : Reference where
  current := z.current.index
  provided := z.provided
  others := z.earlier.map Holding.index
  threshold := z.threshold

/-- Whether a fingerprint is in the provided code. -/
def IsProvided (f : Fingerprint) : Prop :=
  ∃ code ∈ z.provided, f ∈ code

/-- Whether more students than the threshold have a fingerprint now. -/
def IsCommon (f : Fingerprint) : Prop :=
  z.threshold < (studentsWith z.current.seen f).length

/-- Whether a location speaks against an owner who has the fingerprint: another student has it there
now, or anyone had it there earlier. -/
def IsHit (owner : String) (f : Fingerprint) (x : Location) : Prop :=
  x.peer.student ≠ owner ∧ z.current.Shows f x ∨ ∃ h ∈ z.earlier, h.Shows f x

theorem isProvided_reference (f : Fingerprint) :
    z.reference.isProvided f = true ↔ z.IsProvided f := by
  simp only [Reference.isProvided, reference, Option.any_eq_true, ExtTreeSet.contains_iff_mem,
    IsProvided, Option.mem_def]

theorem isCommon_reference (f : Fingerprint) :
    z.reference.isCommon f = true ↔ z.IsCommon f := by
  rw [Reference.isCommon, decide_eq_true_eq, IsCommon, ← Index.studentCount_ofSightings]
  rfl

theorem mem_otherBearers_reference (owner : String) (f : Fingerprint) (x : Location) :
    x ∈ (z.reference.otherBearers owner f).locations z.reference.current.label ↔
      x.peer.student ≠ owner ∧ z.current.Shows f x := by
  rw [Reference.mem_otherBearers_iff, ← Holding.mem_locations_index]
  rfl

theorem mem_earlierHits_reference (f : Fingerprint) (x : Location) :
    x ∈ z.reference.earlierHits f ↔ ∃ h ∈ z.earlier, h.Shows f x := by
  simp only [Reference.earlierHits, reference, List.flatMap_map, List.mem_flatMap,
    Holding.mem_locations_index]

/-- Among more students than a positive threshold there is one besides the owner. -/
theorem exists_otherBearer {f : Fingerprint} (ht : 1 ≤ z.threshold) (hf : z.IsCommon f)
    (owner : String) : (z.reference.otherBearers owner f).isEmpty = false := by
  have herase : (z.reference.current.bearers f).size ≤
      (z.reference.otherBearers owner f).size + 1 :=
    Bearers.size_le_size_erase _ owner
  have hcount : z.threshold < (z.reference.current.bearers f).size := by
    rw [← isCommon_reference] at hf
    exact of_decide_eq_true hf
  refine List.isEmpty_eq_false_iff.2 fun hnil => ?_
  have hzero : (z.reference.otherBearers owner f).size = 0 := congrArg List.length hnil
  omega

end Sources
end Resemblance
