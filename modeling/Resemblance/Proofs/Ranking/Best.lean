import Mathlib.Data.List.Induction
import Mathlib.Data.List.Perm.Basic
import Mathlib.Order.Bounds.Defs
import Resemblance.Proofs.Entries
import Resemblance.Proofs.Ranking.Doubles
import Resemblance.Ranking.Basic

/-!
# The best version of each student

Versions come in any order, and the one that stands for its student is found by looking at one after
the other and keeping the better one.

## What is here

* `Summary.order` — versions by share, greatest first, and then by number; it is what
  `Summary.precedes` asks for as long as shares are numbers (`precedes_iff`).
* `Best` — a version that no other of its student precedes, told by shares and numbers.
* `getElem?_bestVersions_iff` — the versions found are the best ones.
* `isGreatest_mostMatched` — the largest number of suspicious positions.
-/

set_option autoImplicit false
namespace Resemblance

open Std

namespace Summary

/-! ## Versions by share and number -/

/-- Versions by share, greatest first, and then by number. -/
def order : Summary → Summary → Ordering :=
  compareLex (Ordering.byKey percent (flip Double.order)) (compareOn version)

instance : TransCmp order :=
  inferInstanceAs (TransCmp
    (compareLex (Ordering.byKey percent (flip Double.order)) (compareOn version)))

theorem order_eq (a b : Summary) :
    order a b = (Double.order b.percent a.percent).then (compare a.version b.version) := rfl

section Numbers

variable {a b : Summary} (ha : a.percent.isNaN = false) (hb : b.percent.isNaN = false)

include ha hb

/-- A version precedes another one when it comes first. -/
theorem precedes_iff : a.precedes b = true ↔ order a b = .lt := by
  rw [precedes, order_eq, Ordering.then_eq_lt, Bool.or_eq_true, Bool.and_eq_true,
    decide_eq_true_eq, decide_eq_true_eq, gt_iff_lt, Double.lt_iff hb ha, Double.beq_iff ha hb,
    OrientedCmp.eq_comm, compare_eq_lt]

theorem isLE_order_of_not_precedes (h : a.precedes b = false) : (order b a).isLE = true := by
  rw [← Bool.not_eq_true, precedes_iff ha hb] at h
  rw [@OrientedCmp.eq_swap _ order]
  cases horder : order a b <;> simp_all

/-- What it means, in numbers, that no version precedes another one. -/
theorem isLE_order_iff : (order a b).isLE = true ↔
    b.percent.toFloat ≤ a.percent.toFloat ∧
      ((b.percent.toFloat == a.percent.toFloat) = true → a.version ≤ b.version) := by
  rw [order_eq, Double.le_iff hb ha, Double.beq_iff hb ha, Ordering.isLE_then_iff_and,
    isLE_compare]
  refine and_congr_right fun hle => ?_
  cases hpercent : Double.order b.percent a.percent <;> simp_all

end Numbers

end Summary

/-! ## The version found -/

variable {summaries : List Summary} {student : String}

/-- One more version changes what is found for its student. -/
theorem getElem?_bestVersions_concat (summaries : List Summary) (s : Summary) (student : String) :
    (bestVersions (summaries ++ [s]))[student]? =
      if s.student = student then
        match (bestVersions summaries)[student]? with
        | none => some s
        | some b => some (if s.precedes b then s else b)
      else (bestVersions summaries)[student]? := by
  rw [bestVersions, List.foldl_concat, ← bestVersions, ExtTreeMap.getElem?_alter]
  simp only [Std.compare_eq_iff_eq]
  split
  · next h => subst h; rfl
  · rfl

/-- What is found after one more version was found before, or is this version. -/
theorem getElem?_bestVersions_concat_cases {s b : Summary}
    (h : (bestVersions (summaries ++ [s]))[student]? = some b) :
    ((bestVersions summaries)[student]? = some b ∧
        (s.student = student → s.precedes b = false)) ∨
      (b = s ∧ s.student = student ∧
        ∀ c, (bestVersions summaries)[student]? = some c → s.precedes c = true) := by
  rw [getElem?_bestVersions_concat] at h
  split at h
  · next hstudent =>
    cases hfound : (bestVersions summaries)[student]? with
    | none =>
      rw [hfound, Option.some_inj] at h
      exact .inr ⟨h.symm, hstudent, fun _ hc => by simp at hc⟩
    | some c =>
      simp only [hfound, Option.some_inj] at h
      split at h
      · next hprecedes =>
        refine .inr ⟨h.symm, hstudent, fun d hd => ?_⟩
        rwa [← Option.some_inj.1 hd]
      · next hprecedes =>
        subst h
        exact .inl ⟨rfl, fun _ => Bool.eq_false_iff.2 hprecedes⟩
  · next hstudent => exact .inl ⟨h, fun hs => absurd hs hstudent⟩

/-- What is found for a student is one of the versions of this student. -/
theorem mem_of_getElem?_bestVersions {b : Summary}
    (h : (bestVersions summaries)[student]? = some b) : b ∈ summaries ∧ b.student = student := by
  induction summaries using List.reverseRecOn with
  | nil => simp [bestVersions] at h
  | append_singleton summaries s ih =>
    obtain ⟨hbefore, -⟩ | ⟨rfl, hstudent, -⟩ := getElem?_bestVersions_concat_cases h
    · exact (ih hbefore).imp_left (List.mem_append_left [s])
    · exact ⟨List.mem_concat_self, hstudent⟩

/-- Something is found for the students that have a version. -/
theorem mem_bestVersions_iff (summaries : List Summary) (student : String) :
    student ∈ bestVersions summaries ↔ ∃ s ∈ summaries, s.student = student := by
  induction summaries using List.reverseRecOn with
  | nil => simp [bestVersions]
  | append_singleton summaries s ih =>
    rw [ExtTreeMap.mem_iff_isSome_getElem?] at ih ⊢
    rw [getElem?_bestVersions_concat]
    simp only [List.mem_append, List.mem_singleton, or_and_right, exists_or, exists_eq_left, ← ih]
    split
    · next h => cases (bestVersions summaries)[student]? <;> simp [h]
    · next h => simp [h]

/-- There is one version for each student. -/
theorem map_student_bestVersions (summaries : List Summary) :
    (bestVersions summaries).values.map Summary.student = (bestVersions summaries).keys :=
  map_values_eq_keys fun _ _ h => (mem_of_getElem?_bestVersions h).2

/-- No version of a student comes before the one that is found. -/
theorem isLE_of_getElem?_bestVersions (hnumbers : ∀ s ∈ summaries, s.percent.isNaN = false)
    {b : Summary} (h : (bestVersions summaries)[student]? = some b) :
    ∀ x ∈ summaries, x.student = student → (b.order x).isLE = true := by
  induction summaries using List.reverseRecOn generalizing b with
  | nil => simp
  | append_singleton summaries s ih =>
    have hs : s.percent.isNaN = false := hnumbers s List.mem_concat_self
    have hearlier : ∀ x ∈ summaries, x.percent.isNaN = false :=
      fun x hx => hnumbers x (List.mem_append_left [s] hx)
    intro x hx hstudent
    rw [List.mem_append, List.mem_singleton] at hx
    obtain ⟨hbefore, hkept⟩ | ⟨rfl, -, hbetter⟩ := getElem?_bestVersions_concat_cases h
    · obtain hx | rfl := hx
      · exact ih hearlier hbefore x hx hstudent
      · have hb := hearlier b (mem_of_getElem?_bestVersions hbefore).1
        exact Summary.isLE_order_of_not_precedes hs hb (hkept hstudent)
    · obtain hx | rfl := hx
      · obtain ⟨c, hc⟩ := mem_iff_exists_getElem?.1
          ((mem_bestVersions_iff summaries student).2 ⟨x, hx, hstudent⟩)
        have hlt := (Summary.precedes_iff hs (hearlier c (mem_of_getElem?_bestVersions hc).1)).1
          (hbetter c hc)
        refine TransCmp.isLE_trans ?_ (ih hearlier hc x hx hstudent)
        rw [hlt]
        rfl
      · rw [@ReflCmp.compare_self _ Summary.order]
        rfl

/-! ## Best versions -/

/-- A version with the greatest share of its student, and the smallest number among the versions
with this share. -/
structure Best (summaries : List Summary) (s : Summary) : Prop where
  mem : s ∈ summaries
  greatest : ∀ x ∈ summaries, x.student = s.student → x.percent.toFloat ≤ s.percent.toFloat
  earliest : ∀ x ∈ summaries, x.student = s.student →
    (x.percent.toFloat == s.percent.toFloat) = true → s.version ≤ x.version

theorem Best.of_perm {other : List Summary} {s : Summary} (h : Best summaries s)
    (hperm : other.Perm summaries) : Best other s where
  mem := hperm.mem_iff.2 h.mem
  greatest x hx := h.greatest x (hperm.mem_iff.1 hx)
  earliest x hx := h.earliest x (hperm.mem_iff.1 hx)

/-- The best versions are those that no version of their student comes before. -/
theorem best_iff (hnumbers : ∀ s ∈ summaries, s.percent.isNaN = false) (s : Summary) :
    Best summaries s ↔
      s ∈ summaries ∧ ∀ x ∈ summaries, x.student = s.student → (s.order x).isLE = true := by
  constructor
  · intro h
    refine ⟨h.mem, fun x hx hstudent => ?_⟩
    rw [Summary.isLE_order_iff (hnumbers s h.mem) (hnumbers x hx)]
    exact ⟨h.greatest x hx hstudent, h.earliest x hx hstudent⟩
  · rintro ⟨hs, h⟩
    have hnumeric := fun x hx hstudent =>
      (Summary.isLE_order_iff (hnumbers s hs) (hnumbers x hx)).1 (h x hx hstudent)
    exact ⟨hs, fun x hx hstudent => (hnumeric x hx hstudent).1,
      fun x hx hstudent => (hnumeric x hx hstudent).2⟩

section Distinct

variable (hnumbers : ∀ s ∈ summaries, s.percent.isNaN = false)
  (hdistinct : (summaries.map fun s => (s.student, s.version)).Nodup)

include hnumbers hdistinct

/-- A student has at most one best version. -/
theorem Best.eq_of_student_eq {s t : Summary} (hs : Best summaries s) (ht : Best summaries t)
    (hstudent : s.student = t.student) : s = t := by
  have hle := ((best_iff hnumbers s).1 hs).2 t ht.mem hstudent.symm
  have hge := ((best_iff hnumbers t).1 ht).2 s hs.mem hstudent
  have heq : s.order t = .eq := OrientedCmp.isLE_antisymm hle hge
  have hversion : s.version = t.version := by
    rw [Summary.order_eq, Ordering.then_eq_eq, Std.compare_eq_iff_eq] at heq
    exact heq.2
  exact List.inj_on_of_nodup_map hdistinct hs.mem ht.mem (Prod.ext hstudent hversion)

/-- The versions that are found are the best ones. -/
theorem getElem?_bestVersions_iff (student : String) (s : Summary) :
    (bestVersions summaries)[student]? = some s ↔ s.student = student ∧ Best summaries s := by
  have hfound : ∀ b, (bestVersions summaries)[student]? = some b →
      b.student = student ∧ Best summaries b := by
    intro b hb
    obtain ⟨hmem, rfl⟩ := mem_of_getElem?_bestVersions hb
    exact ⟨rfl, (best_iff hnumbers b).2 ⟨hmem, isLE_of_getElem?_bestVersions hnumbers hb⟩⟩
  refine ⟨hfound s, ?_⟩
  rintro ⟨rfl, hbest⟩
  obtain ⟨b, hb⟩ := mem_iff_exists_getElem?.1
    ((mem_bestVersions_iff summaries s.student).2 ⟨s, hbest.mem, rfl⟩)
  obtain ⟨hstudent, hbestb⟩ := hfound b hb
  rw [hb, hbest.eq_of_student_eq hnumbers hdistinct hbestb hstudent.symm]

/-- The order of the versions does not matter. -/
theorem bestVersions_eq_of_perm {other : List Summary} (hperm : other.Perm summaries) :
    bestVersions other = bestVersions summaries := by
  refine ExtTreeMap.ext_getElem? fun student => Option.ext fun s => ?_
  rw [getElem?_bestVersions_iff hnumbers hdistinct,
    getElem?_bestVersions_iff (fun s hs => hnumbers s (hperm.mem_iff.1 hs))
      ((hperm.map _).nodup_iff.2 hdistinct)]
  exact and_congr_right fun _ => ⟨(·.of_perm hperm.symm), (·.of_perm hperm)⟩

end Distinct

/-! ## The largest number of suspicious positions -/

theorem mostMatched_eq_of_perm {other : List Summary} (hperm : other.Perm summaries) :
    mostMatched other = mostMatched summaries :=
  (hperm.map Summary.matched).foldl_eq 0

/-- The number is the greatest of all versions, those included that stand for no student. -/
theorem isGreatest_mostMatched {s : Summary} (hs : s ∈ summaries) :
    IsGreatest {n | ∃ x ∈ summaries, x.matched = n} (mostMatched summaries) := by
  have hmax : mostMatched summaries = (summaries.map Summary.matched).max?.getD 0 := by
    rw [mostMatched, List.foldl_max, Nat.zero_max]
  obtain ⟨n, hn⟩ : ∃ n, (summaries.map Summary.matched).max? = some n :=
    Option.isSome_iff_exists.1 (List.isSome_max?_of_mem (List.mem_map_of_mem hs))
  obtain ⟨hmem, hbound⟩ := List.max?_eq_some_iff.1 hn
  rw [hmax, hn, Option.getD_some]
  refine ⟨List.mem_map.1 hmem, ?_⟩
  rintro _ ⟨x, hx, rfl⟩
  exact hbound _ (List.mem_map_of_mem hx)

end Resemblance
