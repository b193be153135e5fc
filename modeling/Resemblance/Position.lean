/-!
# Positions

The fingerprints of a submission are numbered from one.  A position is such a number, held in a word
of 64 bits, and sums of positions wrap around.

## What is here

* `Position` and `Position.numbered` — the items of a list with their numbers.  No memory holds so
  many items that the numbers run out; a list that did would have items without a number.
* `toNat_add_one`, `toNat_add_of_le_sub` — up to a later position, positions are counted like
  natural numbers, and so they are as long as zero is not met (`toNat_add_of_forall_ne_zero`).
* `induction_below` — what passes from each position to the next one is true below a bound.
-/

set_option autoImplicit false
namespace Resemblance

/-- The number of a fingerprint in its submission, a 64-bit word. -/
abbrev Position := UInt64

namespace Position

theorem one_le_toNat_iff (p : Position) : 1 ≤ p.toNat ↔ p ≠ 0 := by
  rw [ne_eq, ← UInt64.toNat_inj]
  exact Nat.one_le_iff_ne_zero

/-- What stands after a position has a number of its own. -/
theorem toNat_add_one {p q : Position} (h : p < q) : (p + 1).toNat = p.toNat + 1 := by
  have hq := q.toNat_lt_size
  rw [UInt64.lt_iff_toNat_lt] at h
  rw [UInt64.toNat_add, UInt64.toNat_one]
  exact Nat.mod_eq_of_lt (Nat.lt_of_le_of_lt h hq)

/-- Positions below a bound are reached from zero, one by one. -/
theorem induction_below {n : Position} {P : Position → Prop} (zero : P 0)
    (succ : ∀ k, k < k + 1 → k + 1 < n → P k → P (k + 1)) : ∀ k < n, P k := by
  have hnumber : ∀ i : Nat, i < n.toNat → P (UInt64.ofNat i) := fun i hi => by
    induction i with
    | zero => exact zero
    | succ i ih =>
      have hn := n.toNat_lt_size
      have hbefore : (UInt64.ofNat i).toNat = i := UInt64.toNat_ofNat_of_lt' (by omega)
      have hafter : (UInt64.ofNat (i + 1)).toNat = i + 1 := UInt64.toNat_ofNat_of_lt' (by omega)
      have hnext : UInt64.ofNat (i + 1) = UInt64.ofNat i + 1 := UInt64.ofNat_add i 1
      rw [hnext] at hafter ⊢
      exact succ _ (by rw [UInt64.lt_iff_toNat_lt]; omega) (by rw [UInt64.lt_iff_toNat_lt]; omega)
        (ih (by omega))
  intro k hk
  rw [← UInt64.ofNat_toNat (x := k)]
  exact hnumber k.toNat (UInt64.lt_iff_toNat_lt.1 hk)

/-- Up to a later position, positions are counted like numbers. -/
theorem toNat_add_of_le_sub {p q k : Position} (hpq : p ≤ q) (hk : k ≤ q - p) :
    (p + k).toNat = p.toNat + k.toNat := by
  have hq := q.toNat_lt_size
  rw [UInt64.le_iff_toNat_le] at hpq hk
  rw [UInt64.toNat_sub_of_le q p (UInt64.le_iff_toNat_le.2 hpq)] at hk
  rw [UInt64.toNat_add]
  exact Nat.mod_eq_of_lt (Nat.lt_of_le_of_lt (Nat.add_le_of_le_sub' hpq hk) hq)

/-- A sum that never comes by zero on the way does not wrap around. -/
theorem toNat_add_of_forall_ne_zero {p k : Position} (h : ∀ j ≤ k, p + j ≠ 0) :
    (p + k).toNat = p.toNat + k.toNat := by
  have hp : p.toNat < UInt64.size := p.toNat_lt_size
  by_cases hfits : p.toNat + k.toNat < UInt64.size
  · rw [UInt64.toNat_add]
    exact Nat.mod_eq_of_lt hfits
  · -- from `p` it is `-p` to zero
    have hne : p ≠ 0 := by
      have := h 0 UInt64.zero_le
      rwa [UInt64.add_zero] at this
    have hpos := (one_le_toNat_iff p).2 hne
    refine absurd (UInt64.add_right_neg p) (h (-p) ?_)
    rw [UInt64.le_iff_toNat_le, UInt64.toNat_neg, Nat.mod_eq_of_lt (by omega)]
    omega

/-! ## Numbered items -/

section Numbered

variable {α : Type}

/-- Items with their numbers, counted from one as far as there are positions. -/
def numbered (items : List α) : List (α × Position) :=
  ((items.take (UInt64.size - 1)).zipIdx 1).map fun entry => (entry.1, UInt64.ofNat entry.2)

theorem mem_numbered_iff (items : List α) (a : α) (p : Position) :
    (a, p) ∈ numbered items ↔ p ≠ 0 ∧ items[p.toNat - 1]? = some a := by
  have hentry : ∀ i, (a, i) ∈ (items.take (UInt64.size - 1)).zipIdx 1 ↔
      1 ≤ i ∧ i < UInt64.size ∧ items[i - 1]? = some a := fun i => by
    rw [List.mem_zipIdx_iff_le_and_getElem?_sub, List.getElem?_take]
    refine and_congr_right fun hi => ?_
    split
    · rename_i h
      rw [and_iff_right (by omega)]
    · rename_i h
      exact iff_of_false (by simp) fun hlt => h (by omega)
  simp only [numbered, List.mem_map, Prod.exists, Prod.mk.injEq]
  constructor
  · rintro ⟨b, i, hi, rfl, rfl⟩
    obtain ⟨hpos, hlt, hitem⟩ := (hentry i).1 hi
    have hnumber := UInt64.toNat_ofNat_of_lt' hlt
    rw [← one_le_toNat_iff, hnumber]
    exact ⟨hpos, hitem⟩
  · rintro ⟨hp, hitem⟩
    exact ⟨a, p.toNat, (hentry _).2 ⟨(one_le_toNat_iff p).2 hp, p.toNat_lt_size, hitem⟩, rfl,
      UInt64.ofNat_toNat⟩

/-- Every item of a list that memory can hold has a number. -/
theorem map_fst_numbered {items : List α} (h : items.length < UInt64.size) :
    (numbered items).map Prod.fst = items := by
  rw [numbered, List.map_map, List.take_of_length_le (Nat.le_sub_one_of_lt h)]
  exact List.zipIdx_map_fst 1 items

/-- Numbers ascend. -/
theorem pairwise_numbered (items : List α) :
    (numbered items).Pairwise fun a b => a.2 < b.2 := by
  rw [numbered, List.pairwise_map]
  have hnumbers : ((items.take (UInt64.size - 1)).zipIdx 1).Pairwise fun a b => a.2 < b.2 := by
    rw [← List.pairwise_map (f := Prod.snd) (R := (· < ·)), List.zipIdx_map_snd]
    exact List.pairwise_lt_range'
  refine hnumbers.imp_of_mem fun {a b} ha hb hlt => ?_
  have hbound : ∀ entry ∈ (items.take (UInt64.size - 1)).zipIdx 1, entry.2 < UInt64.size :=
    fun entry hentry => by
      have := (List.mem_zipIdx hentry).2.1
      rw [List.length_take] at this
      have : 0 < UInt64.size := by decide
      omega
  rwa [UInt64.lt_iff_toNat_lt, UInt64.toNat_ofNat_of_lt' (hbound a ha),
    UInt64.toNat_ofNat_of_lt' (hbound b hb)]

end Numbered
end Position
end Resemblance
