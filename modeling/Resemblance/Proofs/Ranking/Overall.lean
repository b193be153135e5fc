import Mathlib.Data.List.Dedup
import Resemblance.Proofs.Ranking.Order

/-!
# The overall ranking

The overall ranking has one standing for each student, made of the best version of the student, and
does not depend on the order in which versions are read.

## What is here

* `mem_rankOverall_iff` — the standings are those of the best versions.
* `map_student_rankOverall_perm` — the students of the ranking are those that have a version.
* `rankOverall_eq_of_perm` — the order of the versions does not matter.
* `rankOverall_exact` — all of this, with scores and order.
-/

set_option autoImplicit false
namespace Resemblance

open Std Standing

variable {summaries : List Summary}

/-- Every student that has a version is ranked, once. -/
theorem map_student_rankOverall_perm (summaries : List Summary) (weights : Weights) :
    ((rankOverall summaries weights).map student).Perm
      (summaries.map Summary.student).dedup := by
  refine (List.perm_ext_iff_of_nodup (nodup_students_rankOverall summaries weights)
    (List.nodup_dedup _)).2 fun name => ?_
  have hkeys : ((rankOverall summaries weights).map student).Perm
      (bestVersions summaries).keys := by
    rw [← map_student_bestVersions]
    refine ((rankOverall_perm summaries weights).map student).trans (.of_eq ?_)
    rw [List.map_map]
    rfl
  rw [hkeys.mem_iff, ExtTreeMap.mem_keys, mem_bestVersions_iff, List.mem_dedup, List.mem_map]

section Distinct

variable (hnumbers : ∀ s ∈ summaries, s.percent.isNaN = false)
  (hdistinct : (summaries.map fun s => (s.student, s.version)).Nodup)

include hnumbers hdistinct

/-- The standings are those of the best versions. -/
theorem mem_rankOverall_iff (weights : Weights) (x : Standing) :
    x ∈ rankOverall summaries weights ↔
      ∃ s, Best summaries s ∧ x = s.standing weights (mostMatched summaries) := by
  rw [(rankOverall_perm summaries weights).mem_iff, List.mem_map]
  simp only [mem_values_iff, getElem?_bestVersions_iff hnumbers hdistinct, exists_eq_left']
  simp only [eq_comm]

/-- The order of the versions does not matter. -/
theorem rankOverall_eq_of_perm {other : List Summary} (hperm : other.Perm summaries)
    (weights : Weights) : rankOverall other weights = rankOverall summaries weights := by
  rw [rankOverall, rankOverall, bestVersions_eq_of_perm hnumbers hdistinct hperm,
    mostMatched_eq_of_perm hperm]

end Distinct

/-- **The overall ranking is exact, whatever the order of the versions.**  When no share is other
than a number and no version of a student is read twice, every student is ranked exactly once, with
a version of the greatest share and, of these, the smallest number.  The score blends the share of
this version with its number of suspicious positions, compared to the greatest such number of any
version.  The ranking ascends strictly, and every permutation of the versions gives the same. -/
theorem rankOverall_exact (summaries : List Summary) (weights : Weights)
    (hnumbers : ∀ s ∈ summaries, s.percent.isNaN = false)
    (hdistinct : (summaries.map fun s => (s.student, s.version)).Nodup) :
    let ranking := rankOverall summaries weights
    (ranking.map student).Perm (summaries.map Summary.student).dedup ∧
      (∀ x ∈ ranking, ∃ (s : Summary) (most : Nat), Best summaries s ∧
        IsGreatest {n | ∃ y ∈ summaries, y.matched = n} most ∧
        x = ⟨s.student, s.version, none, s.percent,
          some (score weights s.percent s.matched most)⟩) ∧
      ranking.Pairwise (fun a b => a.order b = .lt) ∧
      ∀ other : List Summary, other.Perm summaries → rankOverall other weights = ranking := by
  intro ranking
  refine ⟨map_student_rankOverall_perm summaries weights, fun x hx => ?_,
    (ranked_rankOverall summaries weights).ascending,
    fun other hperm => rankOverall_eq_of_perm hnumbers hdistinct hperm weights⟩
  obtain ⟨s, hs, rfl⟩ := (mem_rankOverall_iff hnumbers hdistinct weights x).1 hx
  exact ⟨s, mostMatched summaries, hs, isGreatest_mostMatched hs.mem, rfl⟩

/-- Two versions of a student have the same share, and the earlier one is ranked. -/
theorem rankOverall_exact_of_tie :
    let summaries : List Summary :=
      [⟨"alice", 3, 60, 6⟩, ⟨"bob", 1, 30, 8⟩, ⟨"alice", 1, 10, 1⟩, ⟨"alice", 2, 60, 6⟩]
    let ranking := rankOverall summaries .balanced
    (∀ s ∈ summaries, s.percent.isNaN = false) ∧
      (summaries.map fun s => (s.student, s.version)).Nodup ∧
      (ranking.map student).Perm ["bob", "alice"] ∧
      (∀ x ∈ ranking, ∃ (s : Summary) (most : Nat), Best summaries s ∧
        IsGreatest {n | ∃ y ∈ summaries, y.matched = n} most ∧
        x = ⟨s.student, s.version, none, s.percent,
          some (score .balanced s.percent s.matched most)⟩) ∧
      ranking.Pairwise (fun a b => a.order b = .lt) ∧
      ∀ other : List Summary, other.Perm summaries → rankOverall other .balanced = ranking := by
  intro summaries ranking
  have hnumbers : ∀ s ∈ summaries, s.percent.isNaN = false := by decide +kernel
  have hdistinct : (summaries.map fun s => (s.student, s.version)).Nodup := by decide
  exact ⟨hnumbers, hdistinct, rankOverall_exact summaries .balanced hnumbers hdistinct⟩

end Resemblance
