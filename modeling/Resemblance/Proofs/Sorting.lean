import Mathlib.Order.Lattice

/-!
# Lists in order

Items are sorted by a number that each of them has, and items of the same number stay as they were
(`pairwise_mergeSort_of_pairwise`).  In a list that ascends strictly, the place of an item is told by
what it is alone (`mem_before_iff`).
-/

set_option autoImplicit false
namespace Resemblance

section Sorted

variable {α : Type} {key : α → Nat} {le : α → α → Bool} {l : List α}
  (hle : ∀ a b, le a b = true ↔ key a ≤ key b)

include hle

theorem le_trans_of_key (a b c : α) (hab : le a b = true) (hbc : le b c = true) :
    le a c = true := by
  rw [hle] at hab hbc ⊢
  exact hab.trans hbc

theorem le_total_of_key (a b : α) : (le a b || le b a) = true := by
  rw [Bool.or_eq_true, hle, hle]
  exact Nat.le_total _ _

/-- Sorting leaves items of the same number in their order. -/
theorem filter_mergeSort (n : Nat) :
    (l.mergeSort le).filter (fun a => key a == n) = l.filter fun a => key a == n := by
  have hsame : (l.filter fun a => key a == n).Pairwise fun a b => le a b = true := by
    refine List.pairwise_of_forall_mem_list fun a ha b hb => ?_
    rw [hle, beq_iff_eq.1 (List.mem_filter.1 ha).2, beq_iff_eq.1 (List.mem_filter.1 hb).2]
  have hsub := (List.sublist_mergeSort (le_trans_of_key hle) (le_total_of_key hle) hsame
    List.filter_sublist).filter fun a => key a == n
  rw [List.filter_filter] at hsub
  simp only [Bool.and_self] at hsub
  refine (hsub.eq_of_length ?_).symm
  exact (((List.mergeSort_perm l le).filter _).length_eq).symm

/-- Sorted items ascend by number, and among those of the same number as before. -/
theorem pairwise_mergeSort_of_pairwise {R : α → α → Prop} (h : l.Pairwise R) :
    (l.mergeSort le).Pairwise fun a b => key a < key b ∨ key a = key b ∧ R a b := by
  have hsorted := List.pairwise_mergeSort (le_trans_of_key hle) (le_total_of_key hle) l
  rw [List.pairwise_iff_forall_sublist] at h hsorted ⊢
  intro a b hsub
  rcases Nat.lt_or_eq_of_le ((hle a b).1 (hsorted hsub)) with hlt | heq
  · exact .inl hlt
  · -- both have the same number, so they stand in this order in the list
    refine .inr ⟨heq, h ?_⟩
    have hpair := hsub.filter fun x => key x == key b
    rw [filter_mergeSort hle] at hpair
    simp only [List.filter_cons, heq, beq_self_eq_true, if_true, List.filter_nil] at hpair
    exact hpair.trans List.filter_sublist

end Sorted

/-- What stands before an item of an ascending list is what is less. -/
theorem mem_before_iff {α κ : Type} [LinearOrder κ] {key : α → κ} {e x : α}
    {before after : List α}
    (h : (before ++ e :: after).Pairwise fun a b => key a < key b) :
    x ∈ before ↔ x ∈ before ++ e :: after ∧ key x < key e := by
  obtain ⟨-, hafter, hacross⟩ := List.pairwise_append.1 h
  refine ⟨fun hx => ⟨List.mem_append_left _ hx, hacross x hx e List.mem_cons_self⟩, ?_⟩
  rintro ⟨hmem, hlt⟩
  rcases List.mem_append.1 hmem with hx | hx
  · exact hx
  rcases List.mem_cons.1 hx with rfl | hx
  · exact absurd hlt (lt_irrefl (key x))
  · exact absurd hlt ((List.pairwise_cons.1 hafter).1 x hx).asymm

end Resemblance
