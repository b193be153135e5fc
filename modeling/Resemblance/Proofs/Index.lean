import Mathlib.Data.List.Dedup
import Resemblance.Index

/-!
# Laws of indices

An index is a fold of insertions, so one look-up after one insertion carries the rest by induction.
An index of sightings then answers exactly what the list of sightings says.

## What is here

* `Bearers.mem_locations_iff` — the locations of a fingerprint are its occurrences.
* `Index.occurrences_ofSightings` — the occurrences of a student are its sightings, in order.
* `Index.mem_locations_ofSightings`, `Index.mem_locations_ofSubmissions` — the locations of a
  fingerprint.
* `Index.mem_students_ofSightings`, `Index.studentCount_ofSightings` — who has a fingerprint, and
  how many they are.  A student counts once, however many sightings there are.
-/

set_option autoImplicit false
namespace Resemblance

open Std

/-! ## The bearers of one fingerprint -/

namespace Bearers

theorem lookup_filter_of_ne {owner student : String} (h : owner ≠ student)
    (entries : List (String × Array Occurrence)) :
    (entries.filter fun entry => entry.1 != owner).lookup student = entries.lookup student := by
  induction entries with
  | nil => rfl
  | cons entry entries ih =>
    obtain ⟨name, places⟩ := entry
    by_cases hname : name = owner
    · subst hname
      simp [List.lookup_cons, beq_false_of_ne h.symm, ih]
    · simp [List.lookup_cons, hname, ih]

theorem occurrences_erase (b : Bearers) (owner student : String) :
    (b.erase owner).occurrences student =
      if owner = student then #[] else b.occurrences student := by
  rw [occurrences, erase]
  split
  · next h =>
    have hnone : (b.toList.filter fun entry => entry.1 != owner).lookup student = none := by
      simp only [List.lookup_eq_none_iff, List.mem_filter, bne_iff_ne, ← h]
      exact fun entry hentry => hentry.2.symm
    rw [hnone]
    rfl
  · next h => rw [lookup_filter_of_ne h, occurrences]

theorem students_erase (b : Bearers) (owner : String) :
    (b.erase owner).students = b.students.erase owner := by
  rw [b.nodup_students.erase_eq_filter, students, students, erase, List.filter_map]
  rfl

/-- One bearer at most is left out. -/
theorem size_le_size_erase (b : Bearers) (owner : String) : b.size ≤ (b.erase owner).size + 1 := by
  have hsize : ∀ c : Bearers, c.students.length = c.size := fun c => List.length_map _
  have hlength : b.students.length - 1 ≤ (b.students.erase owner).length := List.le_length_erase
  rw [← students_erase, hsize, hsize] at hlength
  exact Nat.sub_le_iff_le_add.1 hlength

theorem mem_occurrences_iff (b : Bearers) (student : String) (o : Occurrence) :
    o ∈ b.occurrences student ↔ ∃ places, (student, places) ∈ b.toList ∧ o ∈ places := by
  constructor
  · intro ho
    rw [occurrences] at ho
    cases hplaces : b.toList.lookup student with
    | none =>
      rw [hplaces] at ho
      exact absurd ho (Array.not_mem_empty _)
    | some places =>
      rw [hplaces] at ho
      obtain ⟨before, after, heq, -⟩ := List.lookup_eq_some_iff.1 hplaces
      exact ⟨places, heq ▸ List.mem_append_right _ List.mem_cons_self, ho⟩
  · rintro ⟨places, hplaces, ho⟩
    rwa [b.occurrences_of_mem hplaces]

/-- The locations are the occurrences, under the name of the gradeable. -/
theorem mem_locations_iff (b : Bearers) (label : String) (x : Location) :
    x ∈ b.locations label ↔
      x.peer.gradeable = label ∧
        (⟨x.peer.version, x.position⟩ : Occurrence) ∈ b.occurrences x.peer.student := by
  obtain ⟨⟨student, version, gradeable⟩, position⟩ := x
  simp only [locations, mem_occurrences_iff, List.mem_flatMap, List.mem_map, Prod.exists,
    Array.mem_toList_iff, Location.mk.injEq, Peer.mk.injEq]
  constructor
  · rintro ⟨_, places, hplaces, o, ho, ⟨rfl, rfl, rfl⟩, rfl⟩
    exact ⟨rfl, places, hplaces, ho⟩
  · rintro ⟨rfl, places, hplaces, ho⟩
    exact ⟨student, places, hplaces, _, ho, ⟨rfl, rfl, rfl⟩, rfl⟩

end Bearers

/-! ## Indices of sightings -/

/-- The students among sightings who have a fingerprint, each once. -/
def studentsWith (seen : List Sighting) (f : Fingerprint) : List String :=
  ((seen.filter fun x => x.fingerprint == f).map Sighting.student).dedup

theorem mem_studentsWith_iff (seen : List Sighting) (f : Fingerprint) (student : String) :
    student ∈ studentsWith seen f ↔ ∃ x ∈ seen, x.fingerprint = f ∧ x.student = student := by
  simp only [studentsWith, List.mem_dedup, List.mem_map, List.mem_filter, beq_iff_eq, and_assoc]

namespace Index

theorem label_foldl_insert (seen : List Sighting) (i : Index) :
    (seen.foldl insert i).label = i.label := by
  induction seen generalizing i with
  | nil => rfl
  | cons x seen ih => rw [List.foldl_cons, ih, label_insert]

@[simp] theorem label_ofSightings (label : String) (seen : List Sighting) :
    (ofSightings label seen).label = label :=
  label_foldl_insert seen (empty label)

theorem occurrences_foldl_insert (seen : List Sighting) (i : Index) (f : Fingerprint)
    (student : String) :
    (((seen.foldl insert i).bearers f).occurrences student).toList =
      ((i.bearers f).occurrences student).toList ++
        (seen.filter fun x => x.fingerprint == f && x.student == student).map
          Sighting.occurrence := by
  induction seen generalizing i with
  | nil => simp
  | cons x seen ih =>
    rw [List.foldl_cons, ih, bearers_insert]
    by_cases hf : x.fingerprint = f
    · by_cases hs : x.student = student <;> simp [Bearers.occurrences_add, hf, hs]
    · simp [hf]

/-- **The occurrences of a student are its sightings, in order.** -/
theorem occurrences_ofSightings (label : String) (seen : List Sighting) (f : Fingerprint)
    (student : String) :
    (((ofSightings label seen).bearers f).occurrences student).toList =
      (seen.filter fun x => x.fingerprint == f && x.student == student).map
        Sighting.occurrence := by
  rw [ofSightings, occurrences_foldl_insert, bearers_empty, Bearers.occurrences_empty,
    Array.toList_empty, List.nil_append]

theorem mem_occurrences_ofSightings (label : String) (seen : List Sighting) (f : Fingerprint)
    (student : String) (o : Occurrence) :
    o ∈ ((ofSightings label seen).bearers f).occurrences student ↔ ⟨f, student, o⟩ ∈ seen := by
  rw [← Array.mem_toList_iff, occurrences_ofSightings, List.mem_map]
  simp only [List.mem_filter, Bool.and_eq_true, beq_iff_eq]
  constructor
  · rintro ⟨⟨_, _, _⟩, ⟨hx, rfl, rfl⟩, rfl⟩
    exact hx
  · exact fun h => ⟨_, ⟨h, rfl, rfl⟩, rfl⟩

/-- The locations of a fingerprint are its sightings. -/
theorem mem_locations_ofSightings (label : String) (seen : List Sighting) (f : Fingerprint)
    (x : Location) :
    x ∈ (ofSightings label seen).locations f ↔
      x.peer.gradeable = label ∧
        ⟨f, x.peer.student, ⟨x.peer.version, x.position⟩⟩ ∈ seen := by
  rw [locations, Bearers.mem_locations_iff, label_ofSightings, mem_occurrences_ofSightings]

/-- The locations of a fingerprint are where the submissions have it. -/
theorem mem_locations_ofSubmissions (label : String) (submissions : List Submission)
    (f : Fingerprint) (x : Location) :
    x ∈ (ofSubmissions label submissions).locations f ↔
      x.peer.gradeable = label ∧
        ∃ b ∈ submissions, b.student = x.peer.student ∧ b.version = x.peer.version ∧
          b.fingerprintAt? x.position = some f := by
  rw [ofSubmissions, mem_locations_ofSightings]
  refine and_congr_right fun _ => ?_
  simp only [List.mem_flatMap, Submission.sightings, List.mem_map, Prod.exists,
    Submission.mem_positions_iff, Sighting.mk.injEq, Occurrence.mk.injEq]
  constructor
  · rintro ⟨b, hb, _, _, hf, rfl, hstudent, hversion, rfl⟩
    exact ⟨b, hb, hstudent, hversion, hf⟩
  · rintro ⟨b, hb, hstudent, hversion, hf⟩
    exact ⟨b, hb, f, x.position, hf, rfl, hstudent, hversion, rfl⟩

/-- The students who have a fingerprint are those of the submissions that have it. -/
theorem mem_studentsWith_sightings (submissions : List Submission) (f : Fingerprint)
    (student : String) :
    student ∈ studentsWith (submissions.flatMap Submission.sightings) f ↔
      ∃ b ∈ submissions, b.student = student ∧ ∃ p, b.fingerprintAt? p = some f := by
  simp only [mem_studentsWith_iff, List.mem_flatMap, Submission.sightings, List.mem_map,
    Prod.exists, Submission.mem_positions_iff]
  constructor
  · rintro ⟨_, ⟨b, hb, f, p, hf, rfl⟩, rfl, hstudent⟩
    exact ⟨b, hb, hstudent, p, hf⟩
  · rintro ⟨b, hb, hstudent, p, hf⟩
    exact ⟨_, ⟨b, hb, f, p, hf, rfl⟩, rfl, hstudent⟩

theorem mem_students_foldl_insert (seen : List Sighting) (i : Index) (f : Fingerprint)
    (student : String) :
    student ∈ ((seen.foldl insert i).bearers f).students ↔
      student ∈ (i.bearers f).students ∨ student ∈ studentsWith seen f := by
  simp only [mem_studentsWith_iff]
  induction seen generalizing i with
  | nil => simp
  | cons x seen ih =>
    rw [List.foldl_cons, ih, bearers_insert]
    by_cases hf : x.fingerprint = f
    · rw [if_pos hf, Bearers.mem_students_add, or_comm (a := x.student = student), or_assoc]
      simp [hf]
    · simp [hf]

theorem mem_students_ofSightings (label : String) (seen : List Sighting) (f : Fingerprint)
    (student : String) :
    student ∈ ((ofSightings label seen).bearers f).students ↔ student ∈ studentsWith seen f := by
  rw [ofSightings, mem_students_foldl_insert, bearers_empty]
  simp

/-- **Every student is counted once.** -/
theorem studentCount_ofSightings (label : String) (seen : List Sighting) (f : Fingerprint) :
    (ofSightings label seen).studentCount f = (studentsWith seen f).length := by
  have hperm : ((ofSightings label seen).bearers f).students.Perm (studentsWith seen f) :=
    (List.perm_ext_iff_of_nodup (Bearers.nodup_students _) (List.nodup_dedup _)).2
      (mem_students_ofSightings label seen f)
  rw [studentCount, Bearers.size, ← hperm.length_eq, Bearers.students, List.length_map]

end Index
end Resemblance
