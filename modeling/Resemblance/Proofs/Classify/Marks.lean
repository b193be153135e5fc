import Resemblance.Classify
import Resemblance.Proofs.Ledger.Confluence

/-!
# The marks of a submission

What the marks of one position say of its fingerprint, and that the marks of a submission ascend.
So a comparison is told by what hits a position and by what suppresses it, without any order.

## What is here

* `Reference.provided_mem_marksAt_iff`, `common_mem_marksAt_iff`, `suspicious_mem_marksAt_iff` —
  which marks a position gets, and `Reference.mem_marks_iff`, which marks a submission gets.
* `Reference.ascending_marks` — they are by ascending position.
* `cites_classify` — so the order in which they are recorded leaves no trace in the ledger.
* `Reference.Hits` — what hits a position, whatever provided code and threshold are;
  `Reference.Suppresses` — the common and provided positions of a submission.
* `cites_classify_iff_hits` — a comparison leaves what hits a position that no suppressor overlaps.
-/

set_option autoImplicit false
namespace Resemblance

open Std

/-- The positions of a submission ascend strictly. -/
theorem Submission.pairwise_positions (s : Submission) :
    s.positions.Pairwise fun a b => a.2 < b.2 :=
  Position.pairwise_numbered _

namespace Reference

variable (r : Reference)

/-! ## One position -/

theorem position_of_mem_marksAt {owner : String} {f : Fingerprint} {p : Position} {mark : Mark}
    (h : mark ∈ r.marksAt owner f p) : mark.position = p := by
  rw [marksAt] at h
  split at h
  · rw [List.mem_singleton.1 h]
    rfl
  · rcases List.mem_append.1 h with h | h
    · split at h
      · exact absurd h List.not_mem_nil
      · split at h
        · rw [List.mem_singleton.1 h]
          rfl
        · obtain ⟨x, -, rfl⟩ := List.mem_map.1 h
          rfl
    · obtain ⟨x, -, rfl⟩ := List.mem_map.1 h
      rfl

theorem provided_mem_marksAt_iff (owner : String) (f : Fingerprint) (p : Position) :
    Mark.provided p ∈ r.marksAt owner f p ↔ r.isProvided f = true := by
  rw [marksAt]
  split
  · rename_i h
    simp [h]
  · rename_i h
    simp only [h, List.mem_append, List.mem_map, reduceCtorEq, and_false, exists_false, or_false,
      iff_false]
    split
    · exact List.not_mem_nil
    · split <;> simp

theorem common_mem_marksAt_iff (owner : String) (f : Fingerprint) (p : Position) :
    Mark.common p ∈ r.marksAt owner f p ↔
      r.isProvided f = false ∧ (r.otherBearers owner f).isEmpty = false ∧ r.isCommon f = true := by
  simp only [marksAt]
  cases r.isProvided f with
  | true => simp
  | false =>
    cases (r.otherBearers owner f).isEmpty with
    | true => simp
    | false => cases r.isCommon f <;> simp

theorem suspicious_mem_marksAt_iff (owner : String) (f : Fingerprint) (p : Position)
    (x : Location) :
    Mark.suspicious p x ∈ r.marksAt owner f p ↔
      r.isProvided f = false ∧
        (x ∈ (r.otherBearers owner f).locations r.current.label ∧ r.isCommon f = false ∨
          x ∈ r.earlierHits f) := by
  simp only [marksAt]
  cases r.isProvided f with
  | true => simp
  | false =>
    cases hempty : (r.otherBearers owner f).isEmpty with
    | true =>
      -- without other bearers there are no locations of them
      rw [Bearers.isEmpty, List.isEmpty_iff] at hempty
      simp [hempty, Bearers.locations]
    | false => cases r.isCommon f <;> simp

/-! ## All positions -/

theorem mem_marks_iff (s : Submission) (mark : Mark) :
    mark ∈ r.marks s ↔
      ∃ f, s.fingerprintAt? mark.position = some f ∧
        mark ∈ r.marksAt s.student f mark.position := by
  simp only [marks, List.mem_flatMap, Prod.exists, Submission.mem_positions_iff]
  constructor
  · rintro ⟨f, p, hf, hmark⟩
    obtain rfl := r.position_of_mem_marksAt hmark
    exact ⟨f, hf, hmark⟩
  · rintro ⟨f, hf, hmark⟩
    exact ⟨f, _, hf, hmark⟩

/-- Marks are made by ascending position. -/
theorem ascending_marks (s : Submission) : Ledger.Ascending s (r.marks s) where
  inRange mark hmark := by
    obtain ⟨f, hf, -⟩ := (r.mem_marks_iff s mark).1 hmark
    rw [← Submission.fingerprintAt?_isSome_iff, hf, Option.isSome_some]
  sorted := by
    rw [marks, List.pairwise_flatMap]
    constructor
    · intro entry _
      refine List.pairwise_of_forall_mem_list fun a ha b hb => ?_
      exact UInt64.le_of_eq
        ((r.position_of_mem_marksAt ha).trans (r.position_of_mem_marksAt hb).symm)
    · refine s.pairwise_positions.imp fun hlt a ha b hb => ?_
      rw [r.position_of_mem_marksAt ha, r.position_of_mem_marksAt hb]
      exact UInt64.le_of_lt hlt

end Reference

/-- **Which places a comparison leaves.** -/
theorem cites_classify (r : Reference) (s : Submission) (width : Nat) (p : Position)
    (x : Location) :
    (classify r s width).Cites p x ↔
      Mark.suspicious p x ∈ r.marks s ∧
        ∀ q, (classify r s width).IsMarked q → ¬Overlaps (classify r s width).width p q :=
  (Ledger.settled_recordAll (r.ascending_marks s)).cites p x

theorem submission_classify (r : Reference) (s : Submission) (width : Nat) :
    (classify r s width).submission = s :=
  Ledger.submission_recordAll _ _

theorem valid_classify (r : Reference) (s : Submission) (width : Nat) :
    (classify r s width).Valid :=
  Ledger.valid_recordAll _ _ _

/-! ## Hits and suppressors -/

theorem Bearers.isEmpty_eq_false_of_mem_locations {b : Bearers} {label : String} {x : Location}
    (h : x ∈ b.locations label) : b.isEmpty = false := by
  obtain ⟨entry, hentry, -⟩ := List.mem_flatMap.1 h
  exact List.isEmpty_eq_false_iff.2 (List.ne_nil_of_mem hentry)

namespace Reference

/-- Whether a location hits a position: another student has the fingerprint there now, or anyone had
it there earlier. -/
def Hits (r : Reference) (s : Submission) (p : Position) (x : Location) : Prop :=
  ∃ f, s.fingerprintAt? p = some f ∧
    (x ∈ (r.otherBearers s.student f).locations r.current.label ∨ x ∈ r.earlierHits f)

/-- Whether a position gets a common or a provided mark. -/
def Suppresses (r : Reference) (s : Submission) (q : Position) : Prop :=
  Mark.common q ∈ r.marks s ∨ Mark.provided q ∈ r.marks s

variable {r : Reference} {s : Submission}

/-- What a position is marked suspicious for, hits it. -/
theorem hits_of_suspicious_mem_marks {p : Position} {x : Location}
    (h : Mark.suspicious p x ∈ r.marks s) : r.Hits s p x := by
  obtain ⟨f, hf, hmark⟩ := (r.mem_marks_iff s _).1 h
  obtain ⟨-, hplace⟩ := (r.suspicious_mem_marksAt_iff _ _ _ _).1 hmark
  exact ⟨f, hf, hplace.imp_left And.left⟩

/-- What hits a position that does not suppress is marked. -/
theorem Hits.suspicious_mem_marks {p : Position} {x : Location} (h : r.Hits s p x)
    (hfree : ¬r.Suppresses s p) : Mark.suspicious p x ∈ r.marks s := by
  obtain ⟨f, hf, hplace⟩ := h
  rw [Suppresses, not_or] at hfree
  have hprovided : r.isProvided f = false := by
    rw [← Bool.not_eq_true, ← r.provided_mem_marksAt_iff s.student f p]
    exact fun hmark => hfree.2 ((r.mem_marks_iff s _).2 ⟨f, hf, hmark⟩)
  refine (r.mem_marks_iff s _).2 ⟨f, hf, (r.suspicious_mem_marksAt_iff _ _ _ _).2 ⟨hprovided, ?_⟩⟩
  refine hplace.imp_left fun hx => ⟨hx, ?_⟩
  -- a common fingerprint that another student has would suppress
  rw [← Bool.not_eq_true]
  intro hcommon
  exact hfree.1 ((r.mem_marks_iff s _).2 ⟨f, hf, (r.common_mem_marksAt_iff _ _ _).2
    ⟨hprovided, Bearers.isEmpty_eq_false_of_mem_locations hx, hcommon⟩⟩)

end Reference

/-- **A comparison leaves what hits a position that no suppressor overlaps.** -/
theorem cites_classify_iff_hits (r : Reference) (s : Submission) (width : Nat) (p : Position)
    (x : Location) :
    (classify r s width).Cites p x ↔
      r.Hits s p x ∧ ∀ q, r.Suppresses s q → ¬Overlaps (max width 1) p q := by
  rw [classify, Ledger.cites_recordAll (r.ascending_marks s)]
  refine and_congr_left fun hfree => ⟨Reference.hits_of_suspicious_mem_marks, fun h => ?_⟩
  exact h.suspicious_mem_marks fun hp => hfree p hp (overlaps_self (Nat.le_max_right width 1) p)

end Resemblance
