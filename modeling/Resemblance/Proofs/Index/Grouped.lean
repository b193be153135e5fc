import Mathlib.Data.String.Basic
import Resemblance.Proofs.Entries
import Resemblance.Proofs.Index

/-!
# An index is its sightings, grouped

An index finds the place of a student in three ways, and the order of the sightings decides which of
them is taken.  What comes out does not depend on that: it is what one gets by putting the sightings
of each fingerprint together by student.

## What is here

* `occurrencesOf` — the occurrences that sightings report of a fingerprint and a student.
* `GroupedBy` — the students who have a fingerprint, in order, each with these occurrences.  There
  is only one such list (`GroupedBy.eq`), and the bearers are one (`groupedBy_listed`).
* `Index.mem_entries_ofSightings` — which fingerprints an index knows.
* `Index.fingerprintCount_ofSightings`, `Index.occurrenceCount_ofSightings` — the totals.
* `Index.grouped_exactly` — all of it, for any sightings in any order.
-/

set_option autoImplicit false
namespace Resemblance

open Std

/-! ## Groups of sightings -/

/-- The occurrences that sightings report of a fingerprint and a student, in order, repeats
included. -/
def occurrencesOf (seen : List Sighting) (f : Fingerprint) (student : String) : List Occurrence :=
  (seen.filter fun x => x.fingerprint == f && x.student == student).map Sighting.occurrence

/-- The students who have a fingerprint among sightings, each once and in the order of code points,
with their occurrences. -/
structure GroupedBy (seen : List Sighting) (f : Fingerprint)
    (groups : List (String × List Occurrence)) : Prop where
  ascending : groups.Pairwise fun a b => a.1 < b.1
  student_iff : ∀ student,
    student ∈ groups.map Prod.fst ↔ ∃ x ∈ seen, x.fingerprint = f ∧ x.student = student
  occurrences : ∀ group ∈ groups, group.2 = occurrencesOf seen f group.1

namespace GroupedBy

variable {seen : List Sighting} {f : Fingerprint} {groups others : List (String × List Occurrence)}

/-- The students tell the groups. -/
theorem eq_map (h : GroupedBy seen f groups) :
    groups = (groups.map Prod.fst).map fun student => (student, occurrencesOf seen f student) := by
  rw [List.map_map]
  refine (List.map_congr_left fun group hgroup => ?_).trans (List.map_id groups) |>.symm
  exact Prod.ext rfl (h.occurrences group hgroup).symm

theorem nodup_students (h : GroupedBy seen f groups) : (groups.map Prod.fst).Nodup :=
  List.pairwise_map.2 (h.ascending.imp fun hlt => hlt.ne)

/-- Sightings can be grouped in one way only. -/
theorem eq (h : GroupedBy seen f groups) (h' : GroupedBy seen f others) : groups = others := by
  have hperm : (groups.map Prod.fst).Perm (others.map Prod.fst) :=
    (List.perm_ext_iff_of_nodup h.nodup_students h'.nodup_students).2 fun student =>
      (h.student_iff student).trans (h'.student_iff student).symm
  have hstudents : groups.map Prod.fst = others.map Prod.fst :=
    List.Perm.eq_of_pairwise (fun a b _ _ (hab : a < b) hba => absurd hba (lt_asymm hab))
      (List.pairwise_map.2 h.ascending) (List.pairwise_map.2 h'.ascending) hperm
  rw [h.eq_map, h'.eq_map, hstudents]

end GroupedBy

namespace Bearers

/-- The bearers with their occurrences, as plain lists. -/
def listed (b : Bearers) : List (String × List Occurrence) :=
  b.toList.map fun entry => (entry.1, entry.2.toList)

theorem map_fst_listed (b : Bearers) : b.listed.map Prod.fst = b.students := by
  rw [listed, List.map_map]
  rfl

/-- All occurrences of a fingerprint, one bearer after another. -/
def allOccurrences (b : Bearers) : List Occurrence :=
  b.toList.flatMap fun entry => entry.2.toList

/-- Wherever an occurrence goes, there is one more. -/
theorem length_allOccurrences_add (b : Bearers) (student : String) (o : Occurrence) :
    (b.add student o).allOccurrences.length = b.allOccurrences.length + 1 := by
  obtain ⟨before, places, after, hparts, heq⟩ := b.exists_toList_add_eq student o
  rw [allOccurrences, allOccurrences, heq]
  rcases hparts.eq with h | ⟨h, hplaces⟩
  · simp only [h, List.flatMap_append, List.flatMap_cons, List.length_append, Array.toList_push,
      List.length_singleton]
    omega
  · simp only [h, hplaces, List.flatMap_append, List.flatMap_cons, List.length_append,
      Array.toList_push, List.length_nil, List.length_singleton]
    omega

end Bearers

namespace Index

/-! ## Which fingerprints there are -/

theorem mem_entries_insert (i : Index) (s : Sighting) (f : Fingerprint) :
    f ∈ (i.insert s).entries ↔ s.fingerprint = f ∨ f ∈ i.entries := by
  by_cases h : s.fingerprint = f <;> simp [insert, ExtTreeMap.mem_alter, h]

theorem mem_entries_foldl_insert (seen : List Sighting) (i : Index) (f : Fingerprint) :
    f ∈ (seen.foldl insert i).entries ↔ f ∈ i.entries ∨ f ∈ seen.map Sighting.fingerprint := by
  induction seen generalizing i with
  | nil => simp
  | cons x seen ih =>
    rw [List.foldl_cons, ih, mem_entries_insert, List.map_cons, List.mem_cons, eq_comm (a := f)]
    tauto

/-- An index knows the fingerprints that were seen. -/
theorem mem_entries_ofSightings (label : String) (seen : List Sighting) (f : Fingerprint) :
    f ∈ (ofSightings label seen).entries ↔ f ∈ seen.map Sighting.fingerprint := by
  rw [ofSightings, mem_entries_foldl_insert]
  simp [empty]

theorem bearers?_ofSightings_eq_none_iff (label : String) (seen : List Sighting)
    (f : Fingerprint) :
    (ofSightings label seen).bearers? f = none ↔ ∀ x ∈ seen, x.fingerprint ≠ f := by
  rw [bearers?, ← Option.not_isSome_iff_eq_none, ← ExtTreeMap.mem_iff_isSome_getElem?,
    mem_entries_ofSightings]
  simp

/-- Every fingerprint is counted once. -/
theorem fingerprintCount_ofSightings (label : String) (seen : List Sighting) :
    (ofSightings label seen).fingerprintCount = (seen.map Sighting.fingerprint).dedup.length := by
  have hperm : (ofSightings label seen).entries.keys.Perm (seen.map Sighting.fingerprint).dedup :=
    (List.perm_ext_iff_of_nodup ExtTreeMap.nodup_keys (List.nodup_dedup _)).2 fun f => by
      rw [ExtTreeMap.mem_keys, mem_entries_ofSightings, List.mem_dedup]
  rw [fingerprintCount, ← ExtTreeMap.length_keys, hperm.length_eq]

/-! ## How many occurrences there are -/

theorem occurrenceCount_eq (i : Index) :
    i.occurrenceCount = (i.entries.toList.flatMap fun entry => entry.2.allOccurrences).length := by
  rw [occurrenceCount, values_eq_map_toList, List.flatMap_map]
  rfl

/-- The entries after an insertion are those of the other fingerprints and the one of the sighting,
with one more occurrence. -/
theorem entries_insert (i : Index) (s : Sighting) :
    (i.insert s).entries =
      i.entries.insert s.fingerprint ((i.bearers s.fingerprint).add s.student s.occurrence) := by
  refine ExtTreeMap.ext_getElem? fun f => ?_
  rw [insert, ExtTreeMap.getElem?_alter, ExtTreeMap.getElem?_insert]
  rfl

theorem occurrenceCount_insert (i : Index) (s : Sighting) :
    (i.insert s).occurrenceCount = i.occurrenceCount + 1 := by
  have hafter := ((entries_insert_perm i.entries s.fingerprint
    ((i.bearers s.fingerprint).add s.student s.occurrence)).flatMap_right
      fun entry => entry.2.allOccurrences).length_eq
  rw [List.flatMap_cons, List.length_append, Bearers.length_allOccurrences_add] at hafter
  rw [occurrenceCount_eq, occurrenceCount_eq, entries_insert, hafter]
  cases hbearers : i.entries[s.fingerprint]? with
  | none =>
    rw [erase_eq_self hbearers, bearers, bearers?, hbearers]
    simp [Bearers.allOccurrences, EmptyCollection.emptyCollection, Nat.add_comm]
  | some b =>
    have hbefore := ((entries_perm_erase hbearers).flatMap_right
      fun entry => entry.2.allOccurrences).length_eq
    rw [List.flatMap_cons, List.length_append] at hbefore
    have hold : i.bearers s.fingerprint = b := by rw [bearers, bearers?, hbearers, Option.getD_some]
    rw [hbefore, hold]
    exact Nat.add_right_comm _ _ _

theorem occurrenceCount_foldl_insert (seen : List Sighting) (i : Index) :
    (seen.foldl insert i).occurrenceCount = i.occurrenceCount + seen.length := by
  induction seen generalizing i with
  | nil => rfl
  | cons x seen ih =>
    rw [List.foldl_cons, ih, occurrenceCount_insert, List.length_cons, Nat.add_assoc,
      Nat.add_comm 1]

/-- Every sighting is counted. -/
theorem occurrenceCount_ofSightings (label : String) (seen : List Sighting) :
    (ofSightings label seen).occurrenceCount = seen.length := by
  have hempty : (empty label).occurrenceCount = 0 := rfl
  rw [ofSightings, occurrenceCount_foldl_insert, hempty, Nat.zero_add]

/-! ## The groups of an index -/

/-- The bearers are the students who were seen with the fingerprint. -/
theorem groupedBy_listed (label : String) (seen : List Sighting) (f : Fingerprint) :
    GroupedBy seen f ((ofSightings label seen).bearers f).listed where
  ascending := by
    rw [Bearers.listed, List.pairwise_map]
    exact (Bearers.sorted _).imp fun hlt => compare_lt_iff_lt.1 hlt
  student_iff student := by
    rw [Bearers.map_fst_listed, mem_students_ofSightings, mem_studentsWith_iff]
  occurrences group hgroup := by
    obtain ⟨⟨student, places⟩, hentry, rfl⟩ := List.mem_map.1 hgroup
    rw [← Bearers.occurrences_of_mem _ hentry, occurrences_ofSightings]
    rfl

/-- **An index groups its sightings, and does nothing else.**  For any sightings in any order: a
fingerprint that was never seen is unknown; for any other the students who have it are listed once
each, in the order of code points, each with exactly the occurrences that were reported, repeats
included, in the order in which they were; and students, fingerprints and occurrences are counted
right. -/
theorem grouped_exactly (label : String) (seen : List Sighting) :
    let i := ofSightings label seen
    (∀ f, i.bearers? f = none ↔ ∀ x ∈ seen, x.fingerprint ≠ f) ∧
      (∀ f groups, (i.bearers? f).map Bearers.listed = some groups ↔
        (∃ x ∈ seen, x.fingerprint = f) ∧ GroupedBy seen f groups) ∧
      (∀ f, i.studentCount f = (studentsWith seen f).length) ∧
      i.fingerprintCount = (seen.map Sighting.fingerprint).dedup.length ∧
      i.occurrenceCount = seen.length := by
  intro i
  refine ⟨bearers?_ofSightings_eq_none_iff label seen, fun f groups => ?_,
    studentCount_ofSightings label seen, fingerprintCount_ofSightings label seen,
    occurrenceCount_ofSightings label seen⟩
  have hnone := bearers?_ofSightings_eq_none_iff label seen f
  have hgrouped := groupedBy_listed label seen f
  cases hbearers : (ofSightings label seen).bearers? f with
  | none =>
    rw [hbearers] at hnone
    have hunseen : ¬∃ x ∈ seen, x.fingerprint = f := by simpa using hnone
    simp [hunseen]
  | some b =>
    rw [hbearers] at hnone
    have hseen : ∃ x ∈ seen, x.fingerprint = f := by simpa using hnone
    rw [bearers, hbearers, Option.getD_some] at hgrouped
    rw [Option.map_some, Option.some_inj, and_iff_right hseen]
    constructor
    · rintro rfl
      exact hgrouped
    · exact hgrouped.eq

/-- Three students, the last in order first; one of them has the fingerprint in two versions. -/
example :
    ((ofSightings "hw" [⟨7, "carol", ⟨1, 4⟩⟩, ⟨7, "alice", ⟨1, 2⟩⟩, ⟨7, "alice", ⟨2, 9⟩⟩,
        ⟨8, "bob", ⟨1, 2⟩⟩, ⟨7, "bob", ⟨1, 1⟩⟩]).bearers? 7).map Bearers.listed =
      some [("alice", [⟨1, 2⟩, ⟨2, 9⟩]), ("bob", [⟨1, 1⟩]), ("carol", [⟨1, 4⟩])] := by
  cbv

end Index
end Resemblance
