import Resemblance.Proofs.Ledger.Ascending
import Resemblance.Proofs.Ledger.Counters

/-!
# Ascending runs are confluent

Each guard of a ledger looks in one direction: a suspicious mark is refused for the windows before
it, and a common or provided one clears the windows before it.  In an arbitrary order that depends
on who comes first.  By ascending position it does not, not even among the marks of one position:
the ledger is told by which marks there are.

## What is here

* `cites_recordAll`, `mem_suspicious_recordAll`, `mem_locations_recordAll` — the suspicious
  positions after ascending marks, and their locations, without a word about the order.
* `recordAll_eq_of_mem_iff` — ascending runs with the same marks lead to the same ledger, tally
  included.
* `ascending_confluent` — both, with the distance that all survivors keep.
-/

set_option autoImplicit false
namespace Resemblance
namespace Ledger

open Std

section Ascending

variable {s : Submission} {marks : List Mark} (h : Ascending s marks) (width : Nat)

include h

/-- A place is left when its position overlaps no common and no provided mark, before or after. -/
theorem cites_recordAll (p : Position) (x : Location) :
    ((ofSubmission s width).recordAll marks).Cites p x ↔
      Mark.suspicious p x ∈ marks ∧
        ∀ q, Mark.common q ∈ marks ∨ Mark.provided q ∈ marks → ¬Overlaps (max width 1) p q := by
  rw [(settled_recordAll h).cites, width_recordAll]
  simp only [isMarked_recordAll]
  rfl

theorem mem_suspicious_recordAll (p : Position) :
    p ∈ ((ofSubmission s width).recordAll marks).suspicious ↔
      (∃ x, Mark.suspicious p x ∈ marks) ∧
        ∀ q, Mark.common q ∈ marks ∨ Mark.provided q ∈ marks → ¬Overlaps (max width 1) p q := by
  rw [(valid_recordAll s width marks).mem_suspicious_iff]
  simp only [cites_recordAll h, exists_and_right]

/-- A suspicious position keeps all its places, since one of them was kept. -/
theorem mem_locations_recordAll {p : Position} {hit : Hit}
    (hp : ((ofSubmission s width).recordAll marks).suspicious[p]? = some hit) (x : Location) :
    x ∈ hit.locations ↔ Mark.suspicious p x ∈ marks := by
  have hmem := mem_iff_exists_getElem?.2 ⟨hit, hp⟩
  have hfree := ((mem_suspicious_recordAll h width p).1 hmem).2
  rw [← cites_iff_of_getElem? hp, cites_recordAll h]
  exact and_iff_left hfree

/-- Ascending runs with the same marks lead to the same ledger. -/
theorem recordAll_eq_of_mem_iff {other : List Mark} (h' : Ascending s other)
    (hsame : ∀ mark, mark ∈ other ↔ mark ∈ marks) :
    (ofSubmission s width).recordAll other = (ofSubmission s width).recordAll marks := by
  have hl := valid_recordAll s width other
  have hm := valid_recordAll s width marks
  have hsubmission : ((ofSubmission s width).recordAll other).submission =
      ((ofSubmission s width).recordAll marks).submission := by
    rw [submission_recordAll, submission_recordAll]
  have hcites : ∀ p x, ((ofSubmission s width).recordAll other).Cites p x ↔
      ((ofSubmission s width).recordAll marks).Cites p x := fun p x => by
    simp only [cites_recordAll h, cites_recordAll h', hsame]
  refine (counted_recordAll s width other).eq_of_classes (counted_recordAll s width marks)
    hsubmission ?_ (ExtTreeMap.ext_getElem? fun p => Option.ext fun hit => ?_)
    (ExtTreeSet.ext_mem fun p => ?_) (ExtTreeSet.ext_mem fun p => ?_)
  · rw [width_recordAll, width_recordAll]
  · exact ⟨hl.getElem?_of_cites hm hsubmission (hcites p),
      hm.getElem?_of_cites hl hsubmission.symm fun x => (hcites p x).symm⟩
  · rw [mem_common_recordAll, mem_common_recordAll, hsame, hsame]
  · rw [mem_provided_recordAll, mem_provided_recordAll, hsame]

end Ascending

/-- **Ascending runs are confluent.**  After marks of positions of a submission, by ascending
position: the provided marks are there; the common ones are, except where a provided one stands;
a position is suspicious when it was marked so and overlaps no common and no provided mark, with
exactly the locations it was marked with.  So every other ascending run with the same marks, in
particular every permutation of them, leads to the same ledger; and a suspicious position is at
least the width of a window away from every common and every provided one, on both sides. -/
theorem ascending_confluent {s : Submission} {marks : List Mark} (h : Ascending s marks)
    (width : Nat) :
    let l := (ofSubmission s width).recordAll marks
    (∀ p, p ∈ l.provided ↔ Mark.provided p ∈ marks) ∧
      (∀ p, p ∈ l.common ↔ Mark.common p ∈ marks ∧ Mark.provided p ∉ marks) ∧
      (∀ p, p ∈ l.suspicious ↔ (∃ x, Mark.suspicious p x ∈ marks) ∧
        ∀ q, Mark.common q ∈ marks ∨ Mark.provided q ∈ marks → ¬Overlaps (max width 1) p q) ∧
      (∀ p hit, l.suspicious[p]? = some hit →
        s.fingerprintAt? p = some hit.fingerprint ∧
          ∀ x, x ∈ hit.locations ↔ Mark.suspicious p x ∈ marks) ∧
      (∀ other, Ascending s other → (∀ mark, mark ∈ other ↔ mark ∈ marks) →
        (ofSubmission s width).recordAll other = l) ∧
      ∀ p ∈ l.suspicious, ∀ q, q ∈ l.common ∨ q ∈ l.provided →
        p.toNat + max width 1 ≤ q.toNat ∨ q.toNat + max width 1 ≤ p.toNat := by
  intro l
  refine ⟨mem_provided_recordAll s width marks, mem_common_recordAll s width marks,
    mem_suspicious_recordAll h width, fun p hit hp => ⟨?_, mem_locations_recordAll h width hp⟩,
    fun other => recordAll_eq_of_mem_iff h width, fun p hp q hq => ?_⟩
  · have hfingerprint := (valid_recordAll s width marks).fingerprint hp
    rwa [submission_recordAll] at hfingerprint
  · have hmarked := (isMarked_recordAll s width marks q).1 hq
    have hfree := ((mem_suspicious_recordAll h width p).1 hp).2 q hmarked
    rw [Overlaps] at hfree
    omega

/-- The places where two students have what a third one has. -/
def orderedPlaces : Location × Location := (⟨⟨"bob", 1, "hw"⟩, 4⟩, ⟨⟨"eve", 2, "hw"⟩, 9⟩)

/-- Marks by ascending position.  Those of the third position come in an order of their own. -/
def orderedMarks (third : List Mark) : List Mark :=
  [.suspicious 1 orderedPlaces.1, .suspicious 2 orderedPlaces.1] ++ third ++
    [.suspicious 4 orderedPlaces.2, .suspicious 5 orderedPlaces.2, .suspicious 5 orderedPlaces.1]

/-- Suspicion before, between and after a common and a provided mark at the same position. -/
theorem ascending_confluent_permuted :
    let s : Submission := ⟨"ada", 1, #[7, 8, 9, 8, 7]⟩
    let marks := orderedMarks [.suspicious 3 orderedPlaces.2, .common 3, .provided 3]
    let other := orderedMarks [.provided 3, .suspicious 3 orderedPlaces.2, .common 3]
    Ascending s marks ∧ Ascending s other ∧
      (ofSubmission s 2).recordAll other = (ofSubmission s 2).recordAll marks ∧
        ((ofSubmission s 2).recordAll marks).suspicious.keys = [1, 5] := by
  intro s marks other
  have hmarks : Ascending s marks := ⟨by decide, by decide⟩
  have hother : Ascending s other := ⟨by decide, by decide⟩
  have hperm : other.Perm marks := by decide
  refine ⟨hmarks, hother, ?_, by decide +kernel⟩
  exact (ascending_confluent hmarks 2).2.2.2.2.1 other hother fun mark => hperm.mem_iff

end Ledger
end Resemblance
