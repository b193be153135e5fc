import Mathlib.Data.List.Induction
import Resemblance.Proofs.Ledger.Recording

/-!
# Runs in ascending order

A suspicious mark is refused only for the windows that begin before it, and a common or provided
mark clears only what reaches it from the left.  When the marks arrive by ascending position the
two together are symmetric: what survives is what overlaps no common and no provided window, on
either side, and nothing of the order is left in the result.

## What is here

* `Ledger.IsMarked`, `Ledger.Cites` — the common and provided positions, and the places of the
  suspicious ones, with what one mark does to them.
* `Valid.getElem?_of_cites` — the places of a suspicious position determine its hit.
* `mem_provided_recordAll`, `mem_common_recordAll`, `isMarked_recordAll` — the two classes after marks
  in any order.
* `Ledger.Ascending` — marks of positions of a submission, by ascending position.
* `Ledger.Settled` — the places that are left, without a word about the order.  A mark that stands
  after all others keeps it (`Settled.record`), so ascending marks lead to it (`settled_recordAll`).
-/

set_option autoImplicit false
namespace Resemblance

open Std

/-- Whether the windows of two positions have a token in common. -/
def Overlaps (width : Nat) (p q : Position) : Prop :=
  p.toNat < q.toNat + width ∧ q.toNat < p.toNat + width

instance (width : Nat) (p q : Position) : Decidable (Overlaps width p q) :=
  inferInstanceAs (Decidable (_ ∧ _))

theorem overlaps_self {width : Nat} (hw : 1 ≤ width) (p : Position) : Overlaps width p p := by
  rw [Overlaps]
  omega

namespace Ledger

/-! ## One mark -/

/-- Whether a position is common or provided. -/
def IsMarked (l : Ledger) (q : Position) : Prop :=
  q ∈ l.common ∨ q ∈ l.provided

/-- Whether a position is suspicious because of a place. -/
def Cites (l : Ledger) (p : Position) (x : Location) : Prop :=
  ∃ hit : Hit, l.suspicious[p]? = some hit ∧ x ∈ hit.locations

theorem Valid.mem_suspicious_iff {l : Ledger} (h : l.Valid) (p : Position) :
    p ∈ l.suspicious ↔ ∃ x, l.Cites p x := by
  rw [mem_iff_exists_getElem?]
  constructor
  · rintro ⟨hit, hp⟩
    obtain ⟨x, hx⟩ := h.located hp
    exact ⟨x, hit, hp, hx⟩
  · rintro ⟨x, hit, hp, -⟩
    exact ⟨hit, hp⟩

theorem cites_iff_of_getElem? {l : Ledger} {p : Position} {hit : Hit}
    (hp : l.suspicious[p]? = some hit)
    (x : Location) : l.Cites p x ↔ x ∈ hit.locations := by
  constructor
  · rintro ⟨other, hother, hx⟩
    obtain rfl : hit = other := Option.some_inj.1 (hp.symm.trans hother)
    exact hx
  · exact fun hx => ⟨hit, hp, hx⟩

/-- Two ledgers of a submission that cite the same places at a position hold the same hit there. -/
theorem Valid.getElem?_of_cites {l m : Ledger} (hl : l.Valid) (hm : m.Valid)
    (hsubmission : l.submission = m.submission) {p : Position} (h : ∀ x, l.Cites p x ↔ m.Cites p x)
    {hit : Hit} (hp : l.suspicious[p]? = some hit) : m.suspicious[p]? = some hit := by
  obtain ⟨x, hx⟩ := hl.located hp
  obtain ⟨other, hother, -⟩ := (h x).1 ⟨hit, hp, hx⟩
  have hfingerprint : hit.fingerprint = other.fingerprint := by
    rw [← Option.some_inj, ← hl.fingerprint hp, ← hm.fingerprint hother, hsubmission]
  have hlocations : hit.locations = other.locations := ExtTreeSet.ext_mem fun y => by
    rw [← cites_iff_of_getElem? hp, ← cites_iff_of_getElem? hother, h]
  cases hit
  cases other
  simp only at hfingerprint hlocations
  rw [hother, hfingerprint, hlocations]

theorem isMarked_addCommon (l : Ledger) (p q : Position) :
    (l.addCommon p).IsMarked q ↔ l.IsMarked q ∨ q = p := by
  rw [IsMarked, mem_common_addCommon, provided_addCommon, IsMarked]
  constructor
  · rintro ((hq | ⟨rfl, -⟩) | hq)
    · exact .inl (.inl hq)
    · exact .inr rfl
    · exact .inl (.inr hq)
  · rintro ((hq | hq) | rfl)
    · exact .inl (.inl hq)
    · exact .inr hq
    · by_cases hp : q ∈ l.provided
      · exact .inr hp
      · exact .inl (.inr ⟨rfl, hp⟩)

theorem isMarked_addProvided (l : Ledger) (p q : Position) :
    (l.addProvided p).IsMarked q ↔ l.IsMarked q ∨ q = p := by
  rw [IsMarked, mem_common_addProvided, mem_provided_addProvided, IsMarked]
  by_cases hq : q = p <;> simp [hq]

theorem cites_addSuspicious {l : Ledger} {p : Position} (h : l.admits p = true) (y : Location)
    (q : Position)
    (x : Location) : (l.addSuspicious p y).Cites q x ↔ l.Cites q x ∨ q = p ∧ x = y := by
  obtain ⟨f, -, heq⟩ := addSuspicious_of_admits h y
  rw [Cites, heq]
  simp only [ExtTreeMap.getElem?_insert, Std.compare_eq_iff_eq]
  by_cases hq : p = q
  · subst hq
    simp only [if_true, Option.some_inj, exists_eq_left', Hit.add, ExtTreeSet.mem_insert,
      Std.compare_eq_iff_eq, true_and]
    rw [or_comm, eq_comm (a := y), hitAt, Cites]
    refine or_congr_left ?_
    cases hp : l.suspicious[p]? with
    | none => simp
    | some hit => simp
  · simp [hq, Ne.symm hq, Cites]

theorem cites_addCommon (l : Ledger) (p q : Position) (x : Location) :
    (l.addCommon p).Cites q x ↔ l.Cites q x ∧ ¬(p ∉ l.provided ∧ q ∈ l.reaching p) := by
  rw [Cites, suspicious_addCommon]
  split
  · rename_i h
    simp [h]
  · rename_i h
    simp only [h, not_false_iff, and_true]
    rfl

theorem cites_addProvided (l : Ledger) (p q : Position) (x : Location) :
    (l.addProvided p).Cites q x ↔ l.Cites q x ∧ q ∉ l.reaching p := by
  rw [Cites, suspicious_addProvided]
  split
  · rename_i h
    simp [h]
  · rename_i h
    simp only [h, not_false_iff, and_true]
    rfl

/-! ## Any order -/

section Runs

variable (s : Submission) (width : Nat) (marks : List Mark)

theorem recordAll_concat (l : Ledger) (mark : Mark) :
    l.recordAll (marks ++ [mark]) = (l.recordAll marks).record mark :=
  recordAll_append l marks [mark]

theorem mem_provided_recordAll (p : Position) :
    p ∈ ((ofSubmission s width).recordAll marks).provided ↔ Mark.provided p ∈ marks := by
  induction marks using List.reverseRecOn with
  | nil => simp [recordAll, ofSubmission]
  | append_singleton marks mark ih =>
    rw [recordAll_concat, List.mem_append, List.mem_singleton, ← ih]
    cases mark with
    | suspicious c y => rw [record, provided_addSuspicious]; simp
    | common c => rw [record, provided_addCommon]; simp
    | provided c => rw [record, mem_provided_addProvided, Mark.provided.injEq]

/-- A provided mark at the same position takes a common one back, before it or after it. -/
theorem mem_common_recordAll (p : Position) :
    p ∈ ((ofSubmission s width).recordAll marks).common ↔
      Mark.common p ∈ marks ∧ Mark.provided p ∉ marks := by
  induction marks using List.reverseRecOn with
  | nil => simp [recordAll, ofSubmission]
  | append_singleton marks mark ih =>
    rw [recordAll_concat]
    simp only [List.mem_append, List.mem_singleton, not_or]
    cases mark with
    | suspicious c y => rw [record, common_addSuspicious, ih]; simp
    | common c =>
      rw [record, mem_common_addCommon, ih, mem_provided_recordAll, Mark.common.injEq]
      by_cases hp : p = c
      · subst hp
        simp only [true_and, or_true, reduceCtorEq, not_false_iff, and_true]
        exact or_iff_right_of_imp And.right
      · simp [hp]
    | provided c =>
      rw [record, mem_common_addProvided, ih, Mark.provided.injEq]
      simp [and_assoc]

theorem isMarked_recordAll (p : Position) :
    ((ofSubmission s width).recordAll marks).IsMarked p ↔
      Mark.common p ∈ marks ∨ Mark.provided p ∈ marks := by
  rw [IsMarked, mem_common_recordAll, mem_provided_recordAll]
  by_cases hp : Mark.provided p ∈ marks <;> simp [hp]

end Runs

/-! ## Ascending order -/

/-- Marks of positions of a submission, by ascending position. -/
structure Ascending (s : Submission) (marks : List Mark) : Prop where
  inRange : ∀ mark ∈ marks, 1 ≤ mark.position.toNat ∧ mark.position.toNat ≤ s.size
  sorted : marks.Pairwise fun a b => a.position ≤ b.position

/-- Among positions up to `p`, a position is covered when it overlaps a common or provided one. -/
theorem isCovered_iff_overlaps {l : Ledger} {p : Position} (hp : p.toNat ≤ l.submission.size)
    (h : ∀ q, l.IsMarked q → 1 ≤ q.toNat ∧ q.toNat ≤ p.toNat) :
    l.isCovered p = true ↔ ∃ q, l.IsMarked q ∧ Overlaps l.width p q := by
  rw [isCovered_iff]
  refine exists_congr fun q => and_congr_right fun hq => ?_
  have := h q hq
  have := l.width_pos
  rw [Overlaps]
  omega

/-- A position up to `p` reaches `p` when the two overlap. -/
theorem mem_reaching_iff_overlaps {l : Ledger} {p q : Position}
    (hq : 1 ≤ q.toNat ∧ q.toNat ≤ p.toNat)
    (hp : p.toNat ≤ l.submission.size) : q ∈ l.reaching p ↔ Overlaps l.width q p := by
  have := l.width_pos
  rw [mem_reaching_iff, Overlaps]
  omega

/-- What a ledger holds after marks: a place is kept exactly when it was marked and its position
overlaps no common and no provided one. -/
structure Settled (l : Ledger) (marks : List Mark) : Prop where
  marked : ∀ {q : Position}, l.IsMarked q → ∃ mark ∈ marks, mark.position = q
  cites : ∀ p x, l.Cites p x ↔
    Mark.suspicious p x ∈ marks ∧ ∀ q, l.IsMarked q → ¬Overlaps l.width p q

/-- A mark may follow others when it is one of the submission and none of them stands after it. -/
def Follows (l : Ledger) (marks : List Mark) (p : Position) : Prop :=
  p.toNat ≤ l.submission.size ∧
    ∀ mark ∈ marks, 1 ≤ mark.position.toNat ∧ mark.position.toNat ≤ p.toNat

namespace Settled

variable {l : Ledger} {marks : List Mark}

theorem isMarked_le (h : l.Settled marks) {p : Position} (hp : l.Follows marks p) {q : Position}
    (hq : l.IsMarked q) : 1 ≤ q.toNat ∧ q.toNat ≤ p.toNat := by
  obtain ⟨mark, hmark, rfl⟩ := h.marked hq
  exact hp.2 mark hmark

theorem cites_le (h : l.Settled marks) {p : Position} (hp : l.Follows marks p) {q : Position}
    {x : Location}
    (hq : l.Cites q x) : 1 ≤ q.toNat ∧ q.toNat ≤ p.toNat :=
  hp.2 _ ((h.cites q x).1 hq).1

theorem addSuspicious (h : l.Settled marks) {p : Position} (hpos : 1 ≤ p.toNat)
    (hp : l.Follows marks p)
    (y : Location) : (l.addSuspicious p y).Settled (marks ++ [.suspicious p y]) := by
  have hsame : ∀ q, (l.addSuspicious p y).IsMarked q ↔ l.IsMarked q := fun q => by
    rw [IsMarked, common_addSuspicious, provided_addSuspicious, IsMarked]
  have hcovered := isCovered_iff_overlaps hp.1 fun q hq => h.isMarked_le hp hq
  refine ⟨fun {q} hq => ?_, fun q x => ?_⟩
  · obtain ⟨mark, hmark, hposition⟩ := h.marked ((hsame q).1 hq)
    exact ⟨mark, List.mem_append_left _ hmark, hposition⟩
  · simp only [hsame, width_addSuspicious, List.mem_append, List.mem_singleton,
      Mark.suspicious.injEq]
    cases hadmits : l.admits p with
    | true =>
      -- the new place is free because its position is not covered
      have hfree : ∀ r, l.IsMarked r → ¬Overlaps l.width p r := fun r hr hoverlap => by
        rw [((admits_iff l p).1 hadmits).2] at hcovered
        exact absurd (hcovered.2 ⟨r, hr, hoverlap⟩) (by simp)
      rw [cites_addSuspicious hadmits, h.cites, or_and_right]
      refine or_congr_right ⟨fun hnew => ⟨hnew, ?_⟩, And.left⟩
      rw [hnew.1]
      exact hfree
    | false =>
      -- the new place is not free because its position is covered
      obtain ⟨r, hr, hoverlap⟩ : ∃ r, l.IsMarked r ∧ Overlaps l.width p r := by
        rw [← hcovered]
        by_contra hnot
        rw [Bool.not_eq_true] at hnot
        rw [(admits_iff l p).2 ⟨⟨hpos, hp.1⟩, hnot⟩] at hadmits
        exact absurd hadmits (by simp)
      rw [addSuspicious_of_not_admits hadmits, h.cites, or_and_right]
      refine (or_iff_left fun hnew => hnew.2 r hr ?_).symm
      rw [hnew.1.1]
      exact hoverlap

/-- A mark that marks its position and clears what overlaps it. -/
theorem mark (h : l.Settled marks) {m : Ledger} {mark : Mark} (hwidth : m.width = l.width)
    (hnot : ∀ q x, Mark.suspicious q x ≠ mark)
    (hmarked : ∀ q, m.IsMarked q ↔ l.IsMarked q ∨ q = mark.position)
    (hcites : ∀ q x, m.Cites q x ↔ l.Cites q x ∧ ¬Overlaps l.width q mark.position) :
    m.Settled (marks ++ [mark]) := by
  refine ⟨fun {q} hq => ?_, fun q x => ?_⟩
  · rcases (hmarked q).1 hq with hq | rfl
    · obtain ⟨other, hother, hposition⟩ := h.marked hq
      exact ⟨other, List.mem_append_left _ hother, hposition⟩
    · exact ⟨mark, by simp, rfl⟩
  · simp only [hcites, h.cites, hmarked, hwidth, List.mem_append, List.mem_singleton, hnot,
      or_false, or_imp, forall_and, forall_eq, and_assoc]

theorem addCommon (h : l.Settled marks) {p : Position} (hp : l.Follows marks p) :
    (l.addCommon p).Settled (marks ++ [.common p]) := by
  refine h.mark (width_record l (.common p)) (fun q x => by simp) (isMarked_addCommon l p)
    fun q x => ?_
  rw [cites_addCommon]
  refine and_congr_right fun hq => not_congr ?_
  rw [mem_reaching_iff_overlaps (h.cites_le hp hq) hp.1]
  refine and_iff_right_of_imp fun hoverlap hprovided => ?_
  -- what overlaps a provided position was not kept
  exact ((h.cites q x).1 hq).2 p (.inr hprovided) hoverlap

theorem addProvided (h : l.Settled marks) {p : Position} (hp : l.Follows marks p) :
    (l.addProvided p).Settled (marks ++ [.provided p]) := by
  refine h.mark (width_record l (.provided p)) (fun q x => by simp) (isMarked_addProvided l p)
    fun q x => ?_
  rw [cites_addProvided]
  refine and_congr_right fun hq => not_congr ?_
  exact mem_reaching_iff_overlaps (h.cites_le hp hq) hp.1

theorem record (h : l.Settled marks) : ∀ {mark : Mark}, 1 ≤ mark.position.toNat →
    l.Follows marks mark.position → (l.record mark).Settled (marks ++ [mark])
  | .suspicious _ y, hpos, hp => h.addSuspicious hpos hp y
  | .common _, _, hp => h.addCommon hp
  | .provided _, _, hp => h.addProvided hp

end Settled

/-- **Ascending marks settle.** -/
theorem settled_recordAll {s : Submission} {width : Nat} {marks : List Mark}
    (h : Ascending s marks) : ((ofSubmission s width).recordAll marks).Settled marks := by
  induction marks using List.reverseRecOn with
  | nil =>
    constructor
    · simp [recordAll, ofSubmission, IsMarked]
    · simp [recordAll, ofSubmission, Cites]
  | append_singleton marks mark ih =>
    have hsorted := List.pairwise_append.1 h.sorted
    have hearlier := fun m hm => h.inRange m (List.mem_append_left [mark] hm)
    have hlast := h.inRange mark (by simp)
    rw [recordAll_concat]
    refine (ih ⟨hearlier, hsorted.1⟩).record hlast.1 ⟨?_, fun m hm => ⟨(hearlier m hm).1, ?_⟩⟩
    · rw [submission_recordAll]
      exact hlast.2
    · exact UInt64.le_iff_toNat_le.1 (hsorted.2.2 m hm mark List.mem_cons_self)

end Ledger
end Resemblance
