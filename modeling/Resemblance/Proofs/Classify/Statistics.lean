import Mathlib.Data.List.Induction
import Resemblance.Proofs.Classify.Marks

/-!
# The statistics of a comparison

Statistics are counted while marks are recorded, and whether a suspicious mark counts depends on
what was recorded before it.  What matters are only the common and provided marks at its position
and before, and of these all come earlier.  So the ledger in the end still tells which marks were
kept, and the statistics are told by how many marks there are of each kind.

## What is here

* `Stats.ofMarks` — the statistics of marks by a rule that tells which positions admit suspicion.
* `GuardsFirst` — common and provided marks precede all others from their position on.
* `admits_record`, `stats_eq_ofMarks` — what later marks do not change, and the statistics of such
  marks.
* `Reference.guardsFirst_marks` — the marks of a submission are such marks.
-/

set_option autoImplicit false
namespace Resemblance

/-! ## Kinds of marks -/

namespace Mark

def isProvided : Mark → Bool
  | .provided _ => true
  | _ => false

def isCommon : Mark → Bool
  | .common _ => true
  | _ => false

def isSuspicious : Mark → Bool
  | .suspicious _ _ => true
  | _ => false

end Mark

/-- The statistics of marks, of which the suspicious ones count where suspicion is admitted. -/
def Stats.ofMarks (marks : List Mark) (admits : Position → Bool) : Stats where
  provided := marks.countP Mark.isProvided
  common := marks.countP Mark.isCommon
  suspicious := marks.countP fun mark => mark.isSuspicious && admits mark.position

/-- The order of the marks does not matter. -/
theorem Stats.ofMarks_eq_of_perm {marks other : List Mark} (h : marks.Perm other)
    (admits : Position → Bool) : Stats.ofMarks marks admits = Stats.ofMarks other admits := by
  rw [ofMarks, ofMarks, h.countP_eq, h.countP_eq, h.countP_eq]

theorem Stats.ofMarks_concat (marks : List Mark) (mark : Mark) (admits : Position → Bool) :
    Stats.ofMarks (marks ++ [mark]) admits =
      (Stats.ofMarks marks admits).count mark (admits mark.position) := by
  simp only [ofMarks, List.countP_append, List.countP_singleton]
  cases mark with
  | suspicious p x =>
    cases h : admits p <;>
      simp [count, Mark.isProvided, Mark.isCommon, Mark.isSuspicious, Mark.position, h]
  | common p => rfl
  | provided p => rfl

/-- Only the positions of suspicious marks matter. -/
theorem Stats.ofMarks_congr {marks : List Mark} {admits admits' : Position → Bool}
    (h : ∀ mark ∈ marks, mark.isSuspicious = true → admits' mark.position = admits mark.position) :
    Stats.ofMarks marks admits' = Stats.ofMarks marks admits := by
  rw [ofMarks, ofMarks, Stats.mk.injEq]
  refine ⟨rfl, rfl, List.countP_congr fun mark hmark => ?_⟩
  cases hsuspicious : mark.isSuspicious with
  | false => rfl
  | true => rw [h mark hmark hsuspicious]

/-- Whether common and provided marks precede all others from their position on. -/
def GuardsFirst (marks : List Mark) : Prop :=
  marks.Pairwise fun a b => b.isSuspicious = true ∨ a.position < b.position

namespace Ledger

/-! ## What later marks do not change -/

theorem isMarked_record (l : Ledger) (mark : Mark) (q : Position) :
    (l.record mark).IsMarked q ↔
      l.IsMarked q ∨ mark.isSuspicious = false ∧ q = mark.position := by
  cases mark with
  | suspicious p x =>
    simp only [record, IsMarked, common_addSuspicious, provided_addSuspicious, Mark.isSuspicious]
    simp
  | common p =>
    rw [record, isMarked_addCommon]
    simp [Mark.isSuspicious, Mark.position]
  | provided p =>
    rw [record, isMarked_addProvided]
    simp [Mark.isSuspicious, Mark.position]

/-- Whether a position admits suspicion is told by the common and provided positions up to it. -/
theorem admits_congr {l m : Ledger} {p : Position} (hsubmission : m.submission = l.submission)
    (hwidth : m.width = l.width) (h : ∀ q ≤ p, m.IsMarked q ↔ l.IsMarked q) :
    m.admits p = l.admits p := by
  have hcovered : m.isCovered p = l.isCovered p := by
    rw [Bool.eq_iff_iff, isCovered_iff, isCovered_iff, hsubmission, hwidth]
    refine exists_congr fun q => ⟨fun ⟨hq, hrange⟩ => ?_, fun ⟨hq, hrange⟩ => ?_⟩
    · exact ⟨(h q (UInt64.le_iff_toNat_le.2 hrange.2.2.1)).1 hq, hrange⟩
    · exact ⟨(h q (UInt64.le_iff_toNat_le.2 hrange.2.2.1)).2 hq, hrange⟩
  rw [admits, admits, hcovered, hsubmission]

/-- A mark changes nothing for the positions before it, and nothing at all if it is suspicious. -/
theorem admits_record (l : Ledger) {mark : Mark} {p : Position}
    (h : mark.isSuspicious = true ∨ p < mark.position) :
    (l.record mark).admits p = l.admits p := by
  refine admits_congr (submission_record l mark) (width_record l mark) fun q hq => ?_
  rw [isMarked_record, or_iff_left_iff_imp]
  rintro ⟨hmark, rfl⟩
  obtain h | h := h
  · rw [hmark] at h
    exact absurd h (by simp)
  · exact absurd (UInt64.lt_of_lt_of_le h hq) (UInt64.lt_irrefl _)

/-! ## Statistics -/

/-- Counting marks goes along with recording them. -/
theorem fst_foldl_record (marks : List Mark) (state : Ledger × Stats) :
    (marks.foldl (fun (state : Ledger × Stats) mark =>
      (state.1.record mark, state.2.count mark (state.1.admits mark.position))) state).1 =
        state.1.recordAll marks := by
  induction marks generalizing state with
  | nil => rfl
  | cons mark marks ih => exact ih _

theorem stats_concat (l : Ledger) (marks : List Mark) (mark : Mark) :
    l.stats (marks ++ [mark]) =
      (l.stats marks).count mark ((l.recordAll marks).admits mark.position) := by
  rw [stats, List.foldl_concat, fst_foldl_record, ← stats]

/-- **The statistics are told by the marks and the ledger in the end.** -/
theorem stats_eq_ofMarks (l : Ledger) {marks : List Mark} (h : GuardsFirst marks) :
    l.stats marks = Stats.ofMarks marks (l.recordAll marks).admits := by
  induction marks using List.reverseRecOn with
  | nil => rfl
  | append_singleton marks mark ih =>
    obtain ⟨hmarks, -, hlast⟩ := List.pairwise_append.1 h
    rw [stats_concat, ih hmarks, ← Stats.ofMarks_concat, recordAll_append]
    refine (Stats.ofMarks_congr fun other hother hsuspicious => admits_record _ ?_).symm
    -- no later mark is for a position up to that of a suspicious one, unless it is suspicious too
    obtain hother | hother := List.mem_append.1 hother
    · exact hlast other hother mark List.mem_cons_self
    · rw [List.mem_singleton.1 hother] at hsuspicious
      exact .inl hsuspicious

end Ledger

namespace Reference

variable (r : Reference)

/-- At one position, what is not suspicious comes first. -/
theorem guardsFirst_marksAt (owner : String) (f : Fingerprint) (p : Position) :
    GuardsFirst (r.marksAt owner f p) := by
  have hsuspicious : ∀ places : List Location, GuardsFirst (places.map (.suspicious p)) :=
    fun places => List.pairwise_map.2 (List.pairwise_of_forall fun _ _ => .inl rfl)
  rw [marksAt]
  split
  · exact List.pairwise_singleton _ _
  · refine List.pairwise_append.2 ⟨?_, hsuspicious _, fun a _ b hb => ?_⟩
    · split
      · exact .nil
      · split
        · exact List.pairwise_singleton _ _
        · exact hsuspicious _
    · obtain ⟨x, -, rfl⟩ := List.mem_map.1 hb
      exact .inl rfl

/-- The marks of a submission are such marks. -/
theorem guardsFirst_marks (s : Submission) : GuardsFirst (r.marks s) := by
  rw [marks, GuardsFirst, List.pairwise_flatMap]
  refine ⟨fun entry _ => r.guardsFirst_marksAt _ _ _, s.pairwise_positions.imp ?_⟩
  intro entry entry' hlt a ha b hb
  rw [r.position_of_mem_marksAt ha, r.position_of_mem_marksAt hb]
  exact .inr hlt

end Reference

/-- The statistics of a comparison are told by its marks and its ledger. -/
theorem classifyStats_eq (r : Reference) (s : Submission) (width : Nat) :
    classifyStats r s width = Stats.ofMarks (r.marks s) (classify r s width).admits :=
  Ledger.stats_eq_ofMarks _ (r.guardsFirst_marks s)

end Resemblance
