import Mathlib.Data.List.Perm.Basic
import Resemblance.Proofs.Classify.Sources
import Resemblance.Proofs.Classify.Statistics

/-!
# What a submission is compared with, in another order

An index keeps the occurrences of a student in the order in which they were added, and the others
come one after another.  So marks that are made from the same sightings in another order come in
another order too, but they are the same marks, and the ledger and the statistics of a comparison
only depend on which marks there are and how often.

## What is here

* `Bearers.Alike`, `Index.Alike`, `Reference.Alike` — the same answers up to the order in which
  occurrences and earlier gradeables come.
* `Index.alike_ofSightings` — sightings in another order build an index that is alike.
* `Reference.Alike.marks_perm` — alike references make the same marks, each as often.
* `Sources.Reordered` — sources whose sightings and earlier gradeables come in another order.
* `classify_order_independent` — comparing with them has the same result.
-/

set_option autoImplicit false
namespace Resemblance

open Std

/-! ## The bearers of one fingerprint -/

/-- The same students with the same occurrences, in any order. -/
structure Bearers.Alike (b c : Bearers) : Prop where
  students : b.students.Perm c.students
  occurrences : ∀ student, (b.occurrences student).toList.Perm (c.occurrences student).toList

/-- The locations are the occurrences of each bearer. -/
theorem Bearers.locations_eq (b : Bearers) (label : String) :
    b.locations label = b.students.flatMap fun student =>
      (b.occurrences student).toList.map fun o => ⟨⟨student, o.version, label⟩, o.position⟩ := by
  rw [locations, students, List.flatMap_map]
  refine List.flatMap_congr fun entry hentry => ?_
  rw [b.occurrences_of_mem hentry]

namespace Bearers.Alike

variable {b c : Bearers} (h : b.Alike c)

include h

theorem locations_perm (label : String) : (b.locations label).Perm (c.locations label) := by
  rw [locations_eq, locations_eq]
  exact (h.students.flatMap_right _).trans
    (List.Perm.flatMap_left _ fun student _ => (h.occurrences student).map _)

theorem size_eq : b.size = c.size := by
  have hlength := h.students.length_eq
  rwa [Bearers.students, Bearers.students, List.length_map, List.length_map] at hlength

theorem isEmpty_eq : b.isEmpty = c.isEmpty := by
  have hsize : b.toList.length = c.toList.length := h.size_eq
  rw [Bearers.isEmpty, Bearers.isEmpty, Bool.eq_iff_iff, List.isEmpty_iff_length_eq_zero,
    List.isEmpty_iff_length_eq_zero, hsize]

theorem erase (owner : String) : (b.erase owner).Alike (c.erase owner) where
  students := by
    rw [students_erase, students_erase]
    exact h.students.erase owner
  occurrences student := by
    rw [occurrences_erase, occurrences_erase]
    split
    · exact .refl _
    · exact h.occurrences student

end Bearers.Alike

/-! ## Indices -/

/-- The same bearers of each fingerprint, up to the order of their occurrences. -/
structure Index.Alike (i j : Index) : Prop where
  label : i.label = j.label
  bearers : ∀ f, (i.bearers f).Alike (j.bearers f)

theorem Index.Alike.locations_perm {i j : Index} (h : i.Alike j) (f : Fingerprint) :
    (i.locations f).Perm (j.locations f) := by
  rw [locations, locations, h.label]
  exact (h.bearers f).locations_perm j.label

theorem Index.flatMap_locations_perm {is js : List Index} (h : List.Forall₂ Index.Alike is js)
    (f : Fingerprint) : (is.flatMap (·.locations f)).Perm (js.flatMap (·.locations f)) := by
  induction h with
  | nil => exact .refl _
  | cons halike _ ih => exact (halike.locations_perm f).append ih

/-- The order of the sightings shows in nothing but the order of the occurrences. -/
theorem Index.alike_ofSightings (label : String) {seen other : List Sighting}
    (h : seen.Perm other) : (ofSightings label seen).Alike (ofSightings label other) where
  label := by rw [label_ofSightings, label_ofSightings]
  bearers f := by
    refine ⟨?_, fun student => ?_⟩
    · refine (List.perm_ext_iff_of_nodup (Bearers.nodup_students _) (Bearers.nodup_students _)).2
        fun student => ?_
      simp only [mem_students_ofSightings, mem_studentsWith_iff, h.mem_iff]
    · rw [occurrences_ofSightings, occurrences_ofSightings]
      exact (h.filter _).map _

/-! ## References -/

/-- The same provided code and threshold, and indices that are alike, the earlier ones in any
order. -/
structure Reference.Alike (r r' : Reference) : Prop where
  current : r.current.Alike r'.current
  provided : r.provided = r'.provided
  others : ∃ mid, r.others.Perm mid ∧ List.Forall₂ Index.Alike mid r'.others
  threshold : r.threshold = r'.threshold

namespace Reference.Alike

variable {r r' : Reference} (h : r.Alike r')

include h

theorem isProvided_eq (f : Fingerprint) : r.isProvided f = r'.isProvided f := by
  rw [isProvided, isProvided, h.provided]

theorem isCommon_eq (f : Fingerprint) : r.isCommon f = r'.isCommon f := by
  have hcount : r.current.studentCount f = r'.current.studentCount f :=
    (h.current.bearers f).size_eq
  rw [isCommon, isCommon, h.threshold, hcount]

theorem earlierHits_perm (f : Fingerprint) : (r.earlierHits f).Perm (r'.earlierHits f) := by
  obtain ⟨mid, hperm, halike⟩ := h.others
  exact (hperm.flatMap_right _).trans (Index.flatMap_locations_perm halike f)

theorem marksAt_perm (owner : String) (f : Fingerprint) (p : Position) :
    (r.marksAt owner f p).Perm (r'.marksAt owner f p) := by
  have hothers : (r.otherBearers owner f).Alike (r'.otherBearers owner f) :=
    (h.current.bearers f).erase owner
  rw [marksAt, marksAt, h.isProvided_eq]
  split
  · exact .refl _
  · dsimp only
    rw [h.isCommon_eq, hothers.isEmpty_eq, h.current.label]
    refine List.Perm.append ?_ ((h.earlierHits_perm f).map _)
    split
    · exact .refl _
    · split
      · exact .refl _
      · exact (hothers.locations_perm _).map _

/-- Alike references make the same marks, each as often. -/
theorem marks_perm (s : Submission) : (r.marks s).Perm (r'.marks s) :=
  List.Perm.flatMap_left _ fun _ _ => h.marksAt_perm _ _ _

theorem classify_eq (s : Submission) (width : Nat) : classify r s width = classify r' s width :=
  Ledger.recordAll_eq_of_mem_iff (r'.ascending_marks s) width (r.ascending_marks s)
    fun _ => (h.marks_perm s).mem_iff

theorem classifyStats_eq (s : Submission) (width : Nat) :
    classifyStats r s width = classifyStats r' s width := by
  rw [Resemblance.classifyStats_eq, Resemblance.classifyStats_eq, h.classify_eq]
  exact Stats.ofMarks_eq_of_perm (h.marks_perm s) _

end Reference.Alike

/-! ## Sources in another order -/

/-- The same sightings of the same gradeable, inserted in any order. -/
structure Holding.Reordered (h h' : Holding) : Prop where
  label : h.label = h'.label
  seen : h.seen.Perm h'.seen

/-- The same sightings of each gradeable, inserted in any order, and the earlier gradeables in any
order. -/
structure Sources.Reordered (z z' : Sources) : Prop where
  current : z.current.Reordered z'.current
  provided : z.provided = z'.provided
  earlier : ∃ mid, z.earlier.Perm mid ∧ List.Forall₂ Holding.Reordered mid z'.earlier
  threshold : z.threshold = z'.threshold

theorem Holding.Reordered.alike {h h' : Holding} (hre : h.Reordered h') :
    h.index.Alike h'.index := by
  rw [Holding.index, Holding.index, hre.label]
  exact Index.alike_ofSightings h'.label hre.seen

theorem Sources.Reordered.alike {z z' : Sources} (h : z.Reordered z') :
    z.reference.Alike z'.reference where
  current := h.current.alike
  provided := h.provided
  threshold := h.threshold
  others := by
    obtain ⟨mid, hperm, hre⟩ := h.earlier
    refine ⟨mid.map Holding.index, hperm.map _, ?_⟩
    rw [Sources.reference, List.forall₂_map_left_iff, List.forall₂_map_right_iff]
    exact hre.imp fun _ _ => Holding.Reordered.alike

/-- **The order of loading does not matter.**  When the sightings of each gradeable are inserted in
another order and the earlier gradeables come in another order, comparing a submission leads to the
same ledger: the same suspicious positions with the same locations, the same common and provided
positions and the same tally.  Even the statistics are the same, which count every mark. -/
theorem classify_order_independent {z z' : Sources} (h : z.Reordered z') (s : Submission)
    (width : Nat) :
    classify z'.reference s width = classify z.reference s width ∧
      classifyStats z'.reference s width = classifyStats z.reference s width :=
  ⟨(h.alike.classify_eq s width).symm, (h.alike.classifyStats_eq s width).symm⟩

/-- Sightings from last to first, and two earlier gradeables the other way round. -/
theorem classify_order_independent_reversed :
    let now : List Sighting := [⟨7, "bob", ⟨1, 1⟩⟩, ⟨7, "eve", ⟨1, 4⟩⟩, ⟨7, "bob", ⟨2, 9⟩⟩,
      ⟨8, "bob", ⟨1, 2⟩⟩, ⟨8, "cyd", ⟨1, 1⟩⟩, ⟨8, "eve", ⟨1, 5⟩⟩]
    let past : List Sighting := [⟨9, "ada", ⟨1, 3⟩⟩, ⟨9, "ada", ⟨3, 3⟩⟩, ⟨7, "cyd", ⟨1, 1⟩⟩]
    let z : Sources := ⟨⟨"hw", now⟩, none, [⟨"old", past⟩, ⟨"older", past.take 1⟩], 2⟩
    let z' : Sources :=
      ⟨⟨"hw", now.reverse⟩, none, [⟨"older", past.take 1⟩, ⟨"old", past.reverse⟩], 2⟩
    let s : Submission := ⟨"ada", 1, #[7, 8, 9]⟩
    z.Reordered z' ∧ classify z'.reference s 1 = classify z.reference s 1 ∧
      classifyStats z'.reference s 1 = classifyStats z.reference s 1 ∧
        classifyStats z.reference s 1 = ⟨0, 1, 7⟩ := by
  intro now past z z' s
  have hre : z.Reordered z' :=
    { current := ⟨rfl, now.reverse_perm.symm⟩
      provided := rfl
      earlier := ⟨[⟨"older", past.take 1⟩, ⟨"old", past⟩], .swap _ _ _,
        .cons ⟨rfl, .refl _⟩ (.cons ⟨rfl, past.reverse_perm.symm⟩ .nil)⟩
      threshold := rfl }
  obtain ⟨hledger, hstats⟩ := classify_order_independent hre s 1
  exact ⟨hre, hledger, hstats, by decide +kernel⟩

end Resemblance
