import Resemblance.Proofs.Classify.Marks
import Resemblance.Proofs.Classify.Sources
import Resemblance.Proofs.Ledger.Counters

/-!
# The verdict on a submission

What a comparison leaves in the ledger, told without any order: each position is judged by its
fingerprint and by the positions around it, on both sides.

## What is here

* `Sources.ProvidedAt`, `CommonAt`, `HitAt`, `SuspiciousAt` — the judgement of a position.
* `Verdict` — a ledger that holds these judgements, and an exact tally.
* `verdict_classify` — a comparison leads to such a ledger; `Verdict.eq` — there is no other.
* `classify_eq_iff` — so the comparison is the verdict.
-/

set_option autoImplicit false
namespace Resemblance

open Std

/-! ## The judgement of a position -/

namespace Sources

variable (z : Sources) (s : Submission)

/-- Whether the fingerprint at a position is provided code. -/
def ProvidedAt (p : Position) : Prop :=
  ∃ f, s.fingerprintAt? p = some f ∧ z.IsProvided f

/-- Whether too many students have the fingerprint at a position, and it is not provided code. -/
def CommonAt (p : Position) : Prop :=
  ∃ f, s.fingerprintAt? p = some f ∧ ¬z.IsProvided f ∧ z.IsCommon f

/-- Whether a location speaks against the owner for the fingerprint at a position. -/
def HitAt (p : Position) (x : Location) : Prop :=
  ∃ f, s.fingerprintAt? p = some f ∧ z.IsHit s.student f x

/-- Whether a position is suspicious: it is hit, and no provided or common window overlaps its
own. -/
def SuspiciousAt (width : Nat) (p : Position) : Prop :=
  ¬z.ProvidedAt s p ∧ ¬z.CommonAt s p ∧ (∃ x, z.HitAt s p x) ∧
    ∀ q, z.ProvidedAt s q ∨ z.CommonAt s q → ¬Overlaps width p q

variable {z s} in
/-- What overlaps no provided and no common position is neither, since it overlaps itself. -/
theorem unmarked_of_free {width : Nat} {p : Position} (hw : 1 ≤ width)
    (hfree : ∀ q, z.ProvidedAt s q ∨ z.CommonAt s q → ¬Overlaps width p q) :
    ¬z.ProvidedAt s p ∧ ¬z.CommonAt s p := by
  have hself := overlaps_self hw p
  exact ⟨fun hp => hfree p (.inl hp) hself, fun hc => hfree p (.inr hc) hself⟩

/-! ## The marks of a submission are the judgements -/

theorem provided_mem_marks_iff (p : Position) :
    Mark.provided p ∈ z.reference.marks s ↔ z.ProvidedAt s p := by
  simp only [Reference.mem_marks_iff, Mark.position, Reference.provided_mem_marksAt_iff,
    isProvided_reference, ProvidedAt]

variable {z} in
theorem common_mem_marks_iff (ht : 1 ≤ z.threshold) (p : Position) :
    Mark.common p ∈ z.reference.marks s ↔ z.CommonAt s p := by
  simp only [Reference.mem_marks_iff, Mark.position, Reference.common_mem_marksAt_iff, CommonAt,
    ← Bool.not_eq_true (z.reference.isProvided _), isProvided_reference, isCommon_reference]
  refine exists_congr fun f => and_congr_right fun _ => and_congr_right fun _ => ?_
  exact and_iff_right_of_imp fun hf => z.exists_otherBearer ht hf s.student

variable {z s} in
theorem hits_reference_iff (p : Position) (x : Location) :
    z.reference.Hits s p x ↔ z.HitAt s p x := by
  simp only [Reference.Hits, mem_otherBearers_reference, mem_earlierHits_reference]
  rfl

variable {z} in
theorem suppresses_reference_iff (ht : 1 ≤ z.threshold) (q : Position) :
    z.reference.Suppresses s q ↔ z.ProvidedAt s q ∨ z.CommonAt s q := by
  rw [Reference.Suppresses, common_mem_marks_iff s ht, provided_mem_marks_iff, or_comm]

end Sources

/-! ## The classes after a comparison -/

section Classes

variable {z : Sources} (s : Submission) {width : Nat}

theorem mem_provided_classify (p : Position) :
    p ∈ (classify z.reference s width).provided ↔ z.ProvidedAt s p := by
  rw [classify, Ledger.mem_provided_recordAll, z.provided_mem_marks_iff]

theorem mem_common_classify (ht : 1 ≤ z.threshold) (p : Position) :
    p ∈ (classify z.reference s width).common ↔ z.CommonAt s p := by
  rw [classify, Ledger.mem_common_recordAll, Sources.common_mem_marks_iff s ht,
    z.provided_mem_marks_iff]
  -- a position has one fingerprint, so a common one is not provided
  refine and_iff_left_of_imp ?_
  rintro ⟨f, hf, hnot, -⟩ ⟨g, hg, hp⟩
  rw [hf, Option.some_inj] at hg
  exact hnot (hg ▸ hp)

theorem width_classify (r : Reference) (hw : 1 ≤ width) : (classify r s width).width = width := by
  rw [classify, Ledger.width_recordAll]
  exact Nat.max_eq_left hw

/-- A hit is kept exactly when no provided and no common window overlaps that of its position. -/
theorem cites_classify_iff (ht : 1 ≤ z.threshold) (hw : 1 ≤ width) (p : Position) (x : Location) :
    (classify z.reference s width).Cites p x ↔
      z.HitAt s p x ∧ ∀ q, z.ProvidedAt s q ∨ z.CommonAt s q → ¬Overlaps width p q := by
  rw [cites_classify_iff_hits, Sources.hits_reference_iff, Nat.max_eq_left hw]
  simp only [Sources.suppresses_reference_iff s ht]

theorem mem_suspicious_classify (ht : 1 ≤ z.threshold) (hw : 1 ≤ width) (p : Position) :
    p ∈ (classify z.reference s width).suspicious ↔ z.SuspiciousAt s width p := by
  rw [(valid_classify z.reference s width).mem_suspicious_iff]
  simp only [cites_classify_iff s ht hw, exists_and_right]
  constructor
  · rintro ⟨hx, hfree⟩
    obtain ⟨hprovided, hcommon⟩ := Sources.unmarked_of_free hw hfree
    exact ⟨hprovided, hcommon, hx, hfree⟩
  · exact fun h => h.2.2

/-- A suspicious position has all its hits, since one of them was kept. -/
theorem mem_locations_classify (ht : 1 ≤ z.threshold) (hw : 1 ≤ width) {p : Position} {hit : Hit}
    (hp : (classify z.reference s width).suspicious[p]? = some hit) (x : Location) :
    x ∈ hit.locations ↔ z.HitAt s p x := by
  constructor
  · intro hx
    exact ((cites_classify_iff s ht hw p x).1 ⟨hit, hp, hx⟩).1
  · intro hx
    obtain ⟨y, hy⟩ := (valid_classify z.reference s width).located hp
    have hfree := ((cites_classify_iff s ht hw p y).1 ⟨hit, hp, hy⟩).2
    obtain ⟨hit', hp', hx'⟩ := (cites_classify_iff s ht hw p x).2 ⟨hx, hfree⟩
    rw [hp, Option.some_inj] at hp'
    exact hp' ▸ hx'

end Classes

/-! ## Verdicts -/

/-- A ledger that tells the judgement of every position of a submission, and counts exactly. -/
structure Verdict (z : Sources) (s : Submission) (n : Nat) (l : Ledger) : Prop where
  submission : l.submission = s
  width : l.width = n
  provided : ∀ p, p ∈ l.provided ↔ z.ProvidedAt s p
  common : ∀ p, p ∈ l.common ↔ z.CommonAt s p
  suspicious : ∀ p, p ∈ l.suspicious ↔ z.SuspiciousAt s n p
  /-- A suspicious position has its fingerprint and all locations that speak against the owner. -/
  hits : ∀ {p : Position} {hit : Hit}, l.suspicious[p]? = some hit →
    s.fingerprintAt? p = some hit.fingerprint ∧ ∀ x, x ∈ hit.locations ↔ z.HitAt s p x
  /-- The tally counts the suspicious positions. -/
  counted : l.Counted

/-- **A comparison leads to the verdict.** -/
theorem verdict_classify {z : Sources} (ht : 1 ≤ z.threshold) (s : Submission) {width : Nat}
    (hw : 1 ≤ width) : Verdict z s width (classify z.reference s width) where
  submission := submission_classify _ _ _
  width := width_classify s _ hw
  provided := mem_provided_classify s
  common := mem_common_classify s ht
  suspicious := mem_suspicious_classify s ht hw
  hits hp := by
    have hfingerprint := (valid_classify z.reference s width).fingerprint hp
    rw [submission_classify] at hfingerprint
    exact ⟨hfingerprint, mem_locations_classify s ht hw hp⟩
  counted := Ledger.counted_recordAll s width _

/-- What one verdict finds at a position, every other one finds too. -/
theorem Verdict.getElem?_suspicious {z : Sources} {s : Submission} {n : Nat} {l m : Ledger}
    (hl : Verdict z s n l) (hm : Verdict z s n m) {p : Position} {hit : Hit}
    (hp : l.suspicious[p]? = some hit) : m.suspicious[p]? = some hit := by
  have hmem : p ∈ m.suspicious := by
    rw [hm.suspicious, ← hl.suspicious]
    exact mem_iff_exists_getElem?.2 ⟨hit, hp⟩
  obtain ⟨other, hother⟩ := mem_iff_exists_getElem?.1 hmem
  obtain ⟨hf, hx⟩ := hl.hits hp
  obtain ⟨hf', hx'⟩ := hm.hits hother
  obtain ⟨f, locations⟩ := hit
  obtain ⟨f', others⟩ := other
  rw [hf, Option.some_inj] at hf'
  rw [hother, Option.some_inj, Hit.mk.injEq]
  exact ⟨hf'.symm, ExtTreeSet.ext_mem fun x => (hx' x).trans (hx x).symm⟩

/-- **There is one verdict only.** -/
theorem Verdict.eq {z : Sources} {s : Submission} {n : Nat} {l m : Ledger} (hl : Verdict z s n l)
    (hm : Verdict z s n m) : l = m := by
  have hsuspicious : l.suspicious = m.suspicious := ExtTreeMap.ext_getElem? fun p =>
    Option.ext fun hit => ⟨hl.getElem?_suspicious hm, hm.getElem?_suspicious hl⟩
  have hcommon : l.common = m.common :=
    ExtTreeSet.ext_mem fun p => (hl.common p).trans (hm.common p).symm
  have hprovided : l.provided = m.provided :=
    ExtTreeSet.ext_mem fun p => (hl.provided p).trans (hm.provided p).symm
  exact hl.counted.eq_of_classes hm.counted (hl.submission.trans hm.submission.symm)
    (hl.width.trans hm.width.symm) hsuspicious hcommon hprovided

/-- **A comparison is its verdict.**  For all sources and submissions, whatever the order of the
insertions, the ledger of a comparison is the one ledger in which a position is provided when its
fingerprint is; common when it is not provided and more than `threshold` students have it; and
suspicious when it is neither, is hit, and overlaps no provided and no common position.  A
suspicious position has all the locations that hit it, and the tally counts them exactly. -/
theorem classify_eq_iff (z : Sources) (ht : 1 ≤ z.threshold) (s : Submission) (width : Nat)
    (hw : 1 ≤ width) (l : Ledger) : classify z.reference s width = l ↔ Verdict z s width l :=
  ⟨fun h => h ▸ verdict_classify ht s hw, fun h => (verdict_classify ht s hw).eq h⟩

/-- Two students have the same fingerprint. -/
def sharedSources : Sources where
  current := ⟨"hw", [⟨7, "ada", ⟨1, 1⟩⟩, ⟨7, "bob", ⟨1, 1⟩⟩]⟩
  provided := none
  earlier := []
  threshold := 2

theorem classify_eq_iff_shared :
    let l := classify sharedSources.reference ⟨"ada", 1, #[7]⟩ 3
    Verdict sharedSources ⟨"ada", 1, #[7]⟩ 3 l ∧ 1 ∈ l.suspicious :=
  ⟨(classify_eq_iff sharedSources (by decide) _ 3 (by decide) _).1 rfl, by decide +kernel⟩

end Resemblance
