import Resemblance.Proofs.Ledger.Ascending

/-!
# Marks only harden

A ledger may receive marks in any order, at any positions, those outside the submission included.
Suspicion comes and goes, but the two other marks never go away: a provided position stays provided,
and a common one stays common until it becomes provided.  With the three classes disjoint, no such
position is ever suspicious again.

## What is here

* `Ledger.Retains` — what is provided stays provided, and what is marked stays marked.  One mark
  does no more than that (`retains_record`), and so does no run (`retains_recordAll`).
* `Valid.not_mem_suspicious_of_reaches`, `Valid.not_mem_suspicious_addProvided`,
  `Valid.not_mem_suspicious_addCommon` — right after a mark, no position is suspicious whose window
  reaches it from the left.
* `classes_ratchet` — both, with the classes disjoint, after every run.
-/

set_option autoImplicit false
namespace Resemblance
namespace Ledger

open Std

/-! ## What stays -/

/-- What a ledger has in its two lasting classes, a later one has too.  A common position may have
become provided. -/
structure Retains (l m : Ledger) : Prop where
  provided : ∀ {p : Position}, p ∈ l.provided → p ∈ m.provided
  marked : ∀ {p : Position}, l.IsMarked p → m.IsMarked p

theorem Retains.refl (l : Ledger) : l.Retains l := ⟨id, id⟩

theorem Retains.trans {l m n : Ledger} (h : l.Retains m) (h' : m.Retains n) : l.Retains n :=
  ⟨fun hp => h'.provided (h.provided hp), fun hp => h'.marked (h.marked hp)⟩

theorem retains_record (l : Ledger) : ∀ mark, l.Retains (l.record mark)
  | .suspicious p x => by
    refine ⟨fun {q} hq => ?_, fun {q} hq => ?_⟩
    · rwa [record, provided_addSuspicious]
    · rwa [record, IsMarked, common_addSuspicious, provided_addSuspicious]
  | .common p => by
    refine ⟨fun {q} hq => ?_, fun {q} hq => ?_⟩
    · rwa [record, provided_addCommon]
    · exact (isMarked_addCommon l p q).2 (.inl hq)
  | .provided p =>
    ⟨fun {q} hq => (mem_provided_addProvided l p q).2 (.inl hq),
      fun {q} hq => (isMarked_addProvided l p q).2 (.inl hq)⟩

theorem retains_recordAll (l : Ledger) (marks : List Mark) : l.Retains (l.recordAll marks) :=
  recordAll_keeps (P := l.Retains) (fun m mark h => h.trans (m.retains_record mark)) marks
    (.refl l)

/-! ## What goes -/

namespace Valid

variable {l : Ledger}

theorem not_mem_suspicious_of_isMarked (h : l.Valid) {p : Position} (hp : l.IsMarked p) :
    p ∉ l.suspicious := by
  intro hmem
  obtain ⟨hcommon, hprovided⟩ := h.unmarked_of_mem hmem
  exact hp.elim hcommon hprovided

/-- When only what does not reach `c` is left of the suspicious positions, none is left in the
window that ends at `c`: a suspicious position there would be one of the submission. -/
theorem not_mem_suspicious_of_reaches (h : l.Valid) {m : Ledger} {c : Position}
    (hm : ∀ q, m.suspicious[q]? = if q ∈ l.reaching c then none else l.suspicious[q]?)
    {p : Position}
    (hfirst : c.toNat - (l.width - 1) ≤ p.toNat) (hlast : p ≤ c) : p ∉ m.suspicious := by
  rw [mem_iff_exists_getElem?, hm]
  rintro ⟨hit, hhit⟩
  split at hhit
  · exact absurd hhit (by simp)
  · rename_i hnot
    have := h.inRange hhit
    have := l.width_pos
    rw [UInt64.le_iff_toNat_le] at hlast
    exact hnot ((mem_reaching_iff l c p).2 (by omega))

theorem not_mem_suspicious_addProvided (h : l.Valid) {c p : Position}
    (hfirst : c.toNat - (l.width - 1) ≤ p.toNat) (hlast : p ≤ c) :
    p ∉ (l.addProvided c).suspicious :=
  h.not_mem_suspicious_of_reaches (suspicious_addProvided l c) hfirst hlast

theorem not_mem_suspicious_addCommon (h : l.Valid) {c p : Position} (hc : c ∉ l.provided)
    (hfirst : c.toNat - (l.width - 1) ≤ p.toNat) (hlast : p ≤ c) :
    p ∉ (l.addCommon c).suspicious := by
  refine h.not_mem_suspicious_of_reaches (fun q => ?_) hfirst hlast
  rw [suspicious_addCommon]
  simp only [hc, not_false_iff, true_and]

end Valid

/-! ## Every run -/

/-- **Classification is a ratchet.**  After every run of marks, in any order and at any positions:
no position is in two classes; a suspicious one is a position of the submission, with its
fingerprint and at least one location; whatever marks follow, a provided position stays provided,
and a common or provided one stays common or provided and is never suspicious.  A provided mark at
`c` makes `c` provided, a common one makes it common unless it is provided; and right after the
provided mark, or the common one where `c` is not provided, no position is suspicious from `c` back
to the first one whose window reaches it. -/
theorem classes_ratchet (s : Submission) (width : Nat) (marks : List Mark) :
    let l := (ofSubmission s width).recordAll marks
    ((∀ p ∈ l.suspicious, p ∉ l.common ∧ p ∉ l.provided) ∧ ∀ p ∈ l.common, p ∉ l.provided) ∧
      (∀ p hit, l.suspicious[p]? = some hit →
        (1 ≤ p.toNat ∧ p.toNat ≤ s.size) ∧ s.fingerprintAt? p = some hit.fingerprint ∧
          ∃ x, x ∈ hit.locations) ∧
      (∀ more, let m := l.recordAll more
        (∀ p ∈ l.provided, p ∈ m.provided) ∧
          ∀ p, p ∈ l.common ∨ p ∈ l.provided →
            (p ∈ m.common ∨ p ∈ m.provided) ∧ p ∉ m.suspicious) ∧
      ∀ c, (c ∈ (l.addProvided c).provided ∧
          (c ∈ (l.addCommon c).common ∨ c ∈ (l.addCommon c).provided)) ∧
        ∀ p, c.toNat - (max width 1 - 1) ≤ p.toNat → p ≤ c →
          p ∉ (l.addProvided c).suspicious ∧
            (c ∉ l.provided → p ∉ (l.addCommon c).suspicious) := by
  intro l
  have hv : l.Valid := valid_recordAll s width marks
  have hsubmission : l.submission = s := submission_recordAll _ marks
  have hwidth : l.width = max width 1 := width_recordAll _ marks
  refine ⟨⟨fun p => hv.unmarked_of_mem, fun p => hv.disjoint⟩, fun p hit hp => ?_, fun more => ?_,
    fun c => ⟨⟨?_, ?_⟩, fun p hfirst hlast => ?_⟩⟩
  · rw [← hsubmission]
    exact ⟨hv.inRange hp, hv.fingerprint hp, hv.located hp⟩
  · have hlater := l.retains_recordAll more
    have hvalid : (l.recordAll more).Valid := recordAll_keeps (fun _ mark h => h.record mark) more hv
    refine ⟨fun p hp => hlater.provided hp, fun p hp => ?_⟩
    exact ⟨hlater.marked hp, hvalid.not_mem_suspicious_of_isMarked (hlater.marked hp)⟩
  · exact (mem_provided_addProvided l c c).2 (.inr rfl)
  · exact (isMarked_addCommon l c c).2 (.inr rfl)
  · rw [← hwidth] at hfirst
    exact ⟨hv.not_mem_suspicious_addProvided hfirst hlast,
      fun hc => hv.not_mem_suspicious_addCommon hc hfirst hlast⟩

end Ledger
end Resemblance
