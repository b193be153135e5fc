import Mathlib.Data.List.Pairwise
import Resemblance.Proofs.Region.OfLedger
import Resemblance.Proofs.Region.Runs

/-!
# Merged regions are maximal

A region that was merged cannot be continued any further: when the regions of a list end one after
the other, so do the merged ones, and no region of the list that ends later continues any of them.
For a ledger this means that a region stops only where the next position is not its continuation.

## What is here

* `Region.continuedBy_eq_false_of_mem_merge` — nothing later of the list continues what came out,
  and `Region.pairwise_ends_merge` — what came out ends one after the other.
* `Ledger.Valid.continuedBy_eq_false` — no position continues a region of a ledger.
* `Ledger.Valid.exists_region_of_continuing` — so positions that continue one another are in one
  region, and there is only one that covers them (`Ledger.Valid.eq_of_covers`).
-/

set_option autoImplicit false
namespace Resemblance
namespace Region

/-- What ends anywhere but one position later does not continue a region. -/
theorem continuedBy_eq_false_of_ne {r y : Region} (h : y.last ≠ r.last + 1) :
    r.continuedBy y = false := by
  rw [continuedBy, Bool.and_eq_false_iff, beq_eq_false_iff_ne]
  exact .inl h

/-- An open region ends no later than what it grows into and than what comes after that. -/
theorem le_last_of_mem_mergeInto : ∀ (rs : List Region) {opened : Region},
    (opened :: rs).Pairwise (fun a b => a.last < b.last) →
      ∀ r ∈ mergeInto opened rs, opened.last ≤ r.last
  | [], opened, _, r, hr => by
    rw [mergeInto, List.mem_singleton] at hr
    exact UInt64.le_of_eq (congrArg last hr).symm
  | x :: xs, opened, h, r, hr => by
    obtain ⟨hopened, hxs⟩ := List.pairwise_cons.1 h
    have hx := hopened x List.mem_cons_self
    rw [mergeInto] at hr
    split at hr
    · rename_i hcont
      have hle := le_last_of_mem_mergeInto xs (pairwise_grow h hcont) r hr
      -- the grown region ends where `x` does
      rw [continuedBy, Bool.and_eq_true, beq_iff_eq] at hcont
      rw [last_grow, ← hcont.1] at hle
      exact UInt64.le_of_lt (UInt64.lt_of_lt_of_le hx hle)
    · rcases List.mem_cons.1 hr with rfl | hr
      · exact UInt64.le_refl _
      · exact UInt64.le_of_lt (UInt64.lt_of_lt_of_le hx (le_last_of_mem_mergeInto xs hxs r hr))

theorem pairwise_ends_mergeInto : ∀ (rs : List Region) {opened : Region},
    (opened :: rs).Pairwise (fun a b => a.last < b.last) →
      (mergeInto opened rs).Pairwise fun a b => a.last < b.last
  | [], _, _ => List.pairwise_singleton _ _
  | x :: xs, opened, h => by
    obtain ⟨hopened, hxs⟩ := List.pairwise_cons.1 h
    rw [mergeInto]
    split
    · rename_i hcont
      exact pairwise_ends_mergeInto xs (pairwise_grow h hcont)
    · refine List.pairwise_cons.2 ⟨fun r hr => ?_, pairwise_ends_mergeInto xs hxs⟩
      exact UInt64.lt_of_lt_of_le (hopened x List.mem_cons_self)
        (le_last_of_mem_mergeInto xs hxs r hr)

/-- What an open region meets either is taken in, or is refused, or ends too late. -/
theorem continuedBy_eq_false_of_mem_mergeInto : ∀ (rs : List Region) {opened : Region},
    (opened :: rs).Pairwise (fun a b => a.last < b.last) →
      ∀ r ∈ mergeInto opened rs, ∀ y ∈ rs, r.last < y.last → r.continuedBy y = false
  | [], _, _, _, _, y, hy, _ => absurd hy List.not_mem_nil
  | x :: xs, opened, h, r, hr, y, hy, hlt => by
    obtain ⟨hopened, hxs⟩ := List.pairwise_cons.1 h
    have hx := hopened x List.mem_cons_self
    rw [mergeInto] at hr
    split at hr
    · rename_i hcont
      have hgrown := pairwise_grow h hcont
      rcases List.mem_cons.1 hy with rfl | hy
      · -- the grown region ends where `y` does, and what comes of it ends no earlier
        have hle := le_last_of_mem_mergeInto xs hgrown r hr
        rw [continuedBy, Bool.and_eq_true, beq_iff_eq] at hcont
        rw [last_grow, ← hcont.1] at hle
        exact absurd (UInt64.lt_of_lt_of_le hlt hle) (UInt64.lt_irrefl _)
      · exact continuedBy_eq_false_of_mem_mergeInto xs hgrown r hr y hy hlt
    · rename_i hcont
      rcases List.mem_cons.1 hr with rfl | hr
      · rcases List.mem_cons.1 hy with rfl | hy
        · exact Bool.eq_false_iff.2 hcont
        · -- `x` stands between the open region and `y`
          have hxy := (List.pairwise_cons.1 hxs).1 y hy
          exact continuedBy_eq_false_of_ne (by grind)
      · rcases List.mem_cons.1 hy with rfl | hy
        · have hle := le_last_of_mem_mergeInto xs hxs r hr
          exact absurd (UInt64.lt_of_lt_of_le hlt hle) (UInt64.lt_irrefl _)
        · exact continuedBy_eq_false_of_mem_mergeInto xs hxs r hr y hy hlt

section Merge

variable {rs : List Region} (h : rs.Pairwise fun a b => a.last < b.last)

include h

/-- Merged regions end one after the other. -/
theorem pairwise_ends_merge : (merge rs).Pairwise fun a b => a.last < b.last := by
  cases rs with
  | nil => exact List.Pairwise.nil
  | cons x xs => exact pairwise_ends_mergeInto xs h

/-- **Nothing of a list continues what was merged from it and ends before.**  The last position is
followed by the first one, so what ends before might be continued otherwise. -/
theorem continuedBy_eq_false_of_mem_merge {r : Region} (hr : r ∈ merge rs) {y : Region}
    (hy : y ∈ rs) (hlt : r.last < y.last) : r.continuedBy y = false := by
  cases rs with
  | nil => exact absurd hy List.not_mem_nil
  | cons x xs =>
    rcases List.mem_cons.1 hy with rfl | hy
    · have hle := le_last_of_mem_mergeInto xs h r hr
      exact absurd (UInt64.lt_of_lt_of_le hlt hle) (UInt64.lt_irrefl _)
    · exact continuedBy_eq_false_of_mem_mergeInto xs h r hr y hy hlt

end Merge

end Region

/-! ## The regions of a ledger -/

namespace Kind

/-- A slice names the peers of the whole. -/
theorem peers_slice (hashSize : Nat) (k : Position) (kind : Kind) :
    (kind.slice hashSize k).peers = kind.peers := by
  cases kind with
  | matched others => exact List.map_map
  | common => rfl
  | provided => rfl

/-- The last slice ends where the whole ends. -/
theorem HasWidth.ends_slice {hashSize : Nat} {n : Position} {kind : Kind}
    (h : kind.HasWidth (n + UInt64.ofNat (max hashSize 1 - 1))) :
    (kind.slice hashSize n).ends = kind.ends := by
  cases kind with
  | matched others =>
    rw [ends, ends, groups, slice, groups, List.map_map]
    refine List.map_congr_left fun g hg => ?_
    rw [Function.comp_apply, Group.ends, Group.slice, Group.ends, List.map_map]
    refine List.map_congr_left fun w hw => ?_
    rw [Function.comp_apply, Window.slice, h g hg w hw, UInt64.add_assoc]
  | common => rfl
  | provided => rfl

end Kind

/-- A region ends like the region of its last position. -/
theorem Region.Fits.endsLike_slice {hashSize : Nat} {r : Region} (h : r.Fits hashSize) :
    r.EndsLike (r.slice hashSize (r.last - r.first)) where
  last := by
    rw [Region.slice, Region.single, UInt64.add_comm, UInt64.sub_add_cancel]
  tag := (Kind.tag_slice _ _ _).symm
  peers := (Kind.peers_slice _ _ _).symm
  ends := h.width.ends_slice.symm

/-- Two items of a list are the same when neither can stand before the other. -/
theorem eq_of_pairwise {α : Type} {R : α → α → Prop} {l : List α} (h : l.Pairwise R) {a b : α}
    (ha : a ∈ l) (hb : b ∈ l) (hab : ¬R a b) (hba : ¬R b a) : a = b := by
  have : Std.Symm fun x y => R x y ∨ R y x := ⟨fun _ _ hxy => hxy.symm⟩
  have hall : l.Pairwise fun x y => R x y ∨ R y x := h.imp Or.inl
  by_contra hne
  exact (hall.forall ha hb hne).elim hab hba

namespace Ledger
namespace Valid

variable {l : Ledger} {hashSize cap : Nat}

/-- Only one region covers a position. -/
theorem eq_of_covers (h : l.Valid) {q r : Region} (hq : q ∈ l.regions hashSize cap)
    (hr : r ∈ l.regions hashSize cap) {p : Position} (hqp : q.first ≤ p ∧ p ≤ q.last)
    (hrp : r.first ≤ p ∧ p ≤ r.last) : q = r :=
  eq_of_pairwise (h.pairwise_regions hashSize cap) hq hr (by grind) (by grind)

/-- No later position of a valid ledger continues a region. -/
theorem continuedBy_eq_false (h : l.Valid) {r y : Region} (hr : r ∈ l.regions hashSize cap)
    (hy : y ∈ l.positionRegions hashSize cap) (hlt : r.last < y.last) : r.continuedBy y = false :=
  Region.continuedBy_eq_false_of_mem_merge (h.pairwise_ends hashSize cap) hr hy hlt

/-- A region that covers a position covers the next one when that is its continuation. -/
theorem covers_of_continuedBy (h : l.Valid) {r x y : Region} (hr : r ∈ l.regions hashSize cap)
    (hx : x ∈ l.positionRegions hashSize cap) (hy : y ∈ l.positionRegions hashSize cap)
    (hcont : x.continuedBy y = true) (hlt : x.first < y.first)
    (hcover : r.first ≤ x.first ∧ x.first ≤ r.last) : r.first ≤ y.first ∧ y.first ≤ r.last := by
  have hxends := (isSingle_of_mem_positionRegions hx).1
  have hyends := (isSingle_of_mem_positionRegions hy).1
  have hnext := hcont
  rw [Region.continuedBy, Bool.and_eq_true, beq_iff_eq] at hnext
  obtain ⟨hlast, -⟩ := hnext
  by_contra hnot
  -- the region would end like `x`, and `y` would continue it
  have hstop : r.last = x.first := by grind
  have hslice : r.slice hashSize (r.last - r.first) = x := by
    have hfirst : (r.slice hashSize (r.last - r.first)).first = x.first := by
      rw [Region.slice, Region.single]
      dsimp only
      grind
    exact eq_of_pairwise (h.pairwise_positionRegions hashSize cap)
      (h.slice_mem_positionRegions hr (UInt64.le_refl _)) hx (by grind) (by grind)
  have hfalse := h.continuedBy_eq_false hr hy (by grind)
  rw [(h.fits_of_mem_regions hr).endsLike_slice.continuedBy_eq, hslice, hcont] at hfalse
  exact absurd hfalse (by simp)

/-- **Positions that ascend and continue one another are in one region.** -/
theorem exists_region_of_continuing (h : l.Valid) {n : Position} (hn : 0 < n)
    {x : Position → Region} (hx : ∀ k < n, x k ∈ l.positionRegions hashSize cap)
    (hcont : ∀ k, k < k + 1 → k + 1 < n →
      (x k).first < (x (k + 1)).first ∧ (x k).continuedBy (x (k + 1)) = true) :
    ∃ r ∈ l.regions hashSize cap, ∀ k < n, r.first ≤ (x k).first ∧ (x k).first ≤ r.last := by
  obtain ⟨r, hr, k, hk, hslice⟩ := h.exists_slice_of_mem_positionRegions (hx 0 hn)
  refine ⟨r, hr, Position.induction_below ?_ fun k hnext hk ih => ?_⟩
  · have hordered := (h.fits_of_mem_regions hr).ordered
    rw [← hslice, Region.slice, Region.single]
    dsimp only
    grind
  · obtain ⟨hlt, hcontinued⟩ := hcont k hnext hk
    exact h.covers_of_continuedBy hr (hx k (UInt64.lt_trans hnext hk)) (hx (k + 1) hk) hcontinued
      hlt ih

end Valid
end Ledger
end Resemblance
