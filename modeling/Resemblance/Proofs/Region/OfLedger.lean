import Resemblance.Proofs.Ledger.Recording
import Resemblance.Proofs.Region.Expansion
import Resemblance.Proofs.Region.Grouping
import Resemblance.Proofs.Sorting

/-!
# The regions of a ledger lose and invent nothing

## What is here

* `mem_positionRegions_iff` — one region for each classified position.
* `pairwise_positionRegions` — in a valid ledger they ascend strictly, since no position is in two
  classes.  So they end one after the other (`pairwise_ends`).
* `flatMap_expand_regions`, `fits_of_mem_regions` — the regions expand to the positions, and each
  has the width law.
* `exists_positionRegion_iff_covered` — what is told of a position is told of it by a region.
* `Ledger.IsTagged` — the type of a position, and `isTagged_iff_covered` — a region of some type
  covers a position exactly when the position is of that type.
* `regions_lossless` — all of it, for every ledger that a run leads to.
-/

set_option autoImplicit false
namespace Resemblance
namespace Ledger

open Std

/-! ## One region for each position -/

theorem mem_positionRegions_iff (l : Ledger) (hashSize cap : Nat) (r : Region) :
    r ∈ l.positionRegions hashSize cap ↔
      (∃ (p : Position) (hit : Hit), l.suspicious[p]? = some hit ∧
        r = .single p (.matched (Group.ofLocations hashSize cap hit.locations.toList))) ∨
      (∃ p ∈ l.common, r = .single p .common) ∨
      (∃ p ∈ l.provided, r = .single p .provided) := by
  simp only [positionRegions, List.mem_mergeSort, List.mem_append, List.mem_map, Prod.exists,
    ExtTreeMap.mem_toList_iff_getElem?_eq_some, ExtTreeSet.mem_toList, or_assoc, eq_comm (b := r)]

theorem isSingle_of_mem_positionRegions {l : Ledger} {hashSize cap : Nat} {r : Region}
    (h : r ∈ l.positionRegions hashSize cap) : r.IsSingle hashSize := by
  rcases (mem_positionRegions_iff l hashSize cap r).1 h with
    ⟨p, hit, -, rfl⟩ | ⟨p, -, rfl⟩ | ⟨p, -, rfl⟩
  · refine ⟨rfl, fun g hg w hw => ?_⟩
    obtain ⟨x, -, -, rfl⟩ := exists_location_of_mem_windows hg hw
    have hwidth : max hashSize 1 - 1 = hashSize - 1 := by omega
    rw [Window.ofPosition, hwidth]
  · exact ⟨rfl, trivial⟩
  · exact ⟨rfl, trivial⟩

/-- No two classified positions of a valid ledger are the same. -/
theorem Valid.nodup_positions {l : Ledger} (h : l.Valid) :
    (l.suspicious.keys ++ l.common.toList ++ l.provided.toList).Nodup := by
  have hkey : ∀ p ∈ l.suspicious.keys, p ∉ l.common ∧ p ∉ l.provided := fun p hp =>
    h.unmarked_of_mem (ExtTreeMap.mem_keys.1 hp)
  rw [List.nodup_append, List.nodup_append]
  refine ⟨⟨ExtTreeMap.nodup_keys, nodup_members _, fun p hp q hq hpq => ?_⟩, nodup_members _,
    fun p hp q hq hpq => ?_⟩
  · exact (hkey p hp).1 (hpq ▸ ExtTreeSet.mem_toList.1 hq)
  · rw [← hpq, ExtTreeSet.mem_toList] at hq
    rcases List.mem_append.1 hp with hp | hp
    · exact (hkey p hp).2 hq
    · exact h.disjoint (ExtTreeSet.mem_toList.1 hp) hq

/-- The regions of the positions of a valid ledger ascend strictly. -/
theorem Valid.pairwise_positionRegions {l : Ledger} (h : l.Valid) (hashSize cap : Nat) :
    (l.positionRegions hashSize cap).Pairwise fun a b => a.first < b.first := by
  have hfirsts := h.nodup_positions
  rw [← ExtTreeMap.map_fst_toList_eq_keys, ← List.map_id l.common.toList,
    ← List.map_id l.provided.toList] at hfirsts
  refine (pairwise_mergeSort_of_pairwise (R := fun a b => a.first ≠ b.first)
    (fun _ _ => decide_eq_true_iff) (List.pairwise_map.1 ?_)).imp ?_
  · rw [List.map_append, List.map_append, List.map_map, List.map_map, List.map_map]
    exact hfirsts
  · rintro a b (hlt | ⟨heq, hne⟩)
    · exact hlt
    · exact absurd (UInt64.toNat_inj.1 heq) hne

/-- They end one after the other, too. -/
theorem Valid.pairwise_ends {l : Ledger} (h : l.Valid) (hashSize cap : Nat) :
    (l.positionRegions hashSize cap).Pairwise fun a b => a.last < b.last := by
  refine (h.pairwise_positionRegions hashSize cap).imp_of_mem fun {a b} ha hb hab => ?_
  rwa [← (isSingle_of_mem_positionRegions ha).1, ← (isSingle_of_mem_positionRegions hb).1]

/-! ## Merged regions -/

namespace Valid

variable {l : Ledger} (h : l.Valid)

include h

theorem flatMap_expand_regions (hashSize cap : Nat) :
    (l.regions hashSize cap).flatMap (Region.expand hashSize) = l.positionRegions hashSize cap :=
  Region.flatMap_expand_merge (h.pairwise_ends hashSize cap)
    fun _ => isSingle_of_mem_positionRegions

variable {hashSize cap : Nat}

theorem fits_of_mem_regions {r : Region} (hr : r ∈ l.regions hashSize cap) : r.Fits hashSize :=
  Region.fits_of_mem_merge (h.pairwise_ends hashSize cap)
    (fun _ => isSingle_of_mem_positionRegions) r hr

/-- Every position of a region has a region of its own. -/
theorem slice_mem_positionRegions {r : Region} (hr : r ∈ l.regions hashSize cap) {k : Position}
    (hk : k ≤ r.last - r.first) : r.slice hashSize k ∈ l.positionRegions hashSize cap := by
  rw [← h.flatMap_expand_regions]
  exact List.mem_flatMap.2 ⟨r, hr, Region.mem_expand_iff.2 ⟨k, hk, rfl⟩⟩

/-- Every position is in a region. -/
theorem exists_slice_of_mem_positionRegions {x : Region} (hx : x ∈ l.positionRegions hashSize cap) :
    ∃ r ∈ l.regions hashSize cap, ∃ k ≤ r.last - r.first, r.slice hashSize k = x := by
  rw [← h.flatMap_expand_regions] at hx
  obtain ⟨r, hr, hx⟩ := List.mem_flatMap.1 hx
  exact ⟨r, hr, Region.mem_expand_iff.1 hx⟩

/-- The regions of a valid ledger ascend strictly and do not overlap. -/
theorem pairwise_regions (hashSize cap : Nat) :
    (l.regions hashSize cap).Pairwise fun a b => a.last < b.first := by
  have hpositions := h.pairwise_positionRegions hashSize cap
  rw [← h.flatMap_expand_regions, List.pairwise_flatMap] at hpositions
  refine hpositions.2.imp fun {a b} hab => ?_
  -- the last position of `a` against the first of `b`
  have hlt := hab (a.slice hashSize (a.last - a.first))
    (Region.mem_expand_iff.2 ⟨_, UInt64.le_refl _, rfl⟩)
    (b.slice hashSize 0) (Region.mem_expand_iff.2 ⟨0, UInt64.zero_le, rfl⟩)
  rw [Region.slice, Region.slice, Region.single, Region.single] at hlt
  dsimp only at hlt
  grind

end Valid

/-- Whether a position of a ledger is of some type. -/
def IsTagged (l : Ledger) (p : Position) : Tag → Prop
  | .matched => p ∈ l.suspicious
  | .common => p ∈ l.common
  | .provided => p ∈ l.provided

theorem exists_positionRegion_iff (l : Ledger) (hashSize cap : Nat) (p : Position) (tag : Tag) :
    (∃ r ∈ l.positionRegions hashSize cap, r.kind.tag = tag ∧ r.first = p) ↔ l.IsTagged p tag := by
  simp only [mem_positionRegions_iff]
  constructor
  · rintro ⟨r, ⟨q, hit, hq, rfl⟩ | ⟨q, hq, rfl⟩ | ⟨q, hq, rfl⟩, rfl, rfl⟩
    · exact mem_iff_exists_getElem?.2 ⟨hit, hq⟩
    · exact hq
    · exact hq
  · intro h
    cases tag with
    | matched =>
      obtain ⟨hit, hp⟩ := mem_iff_exists_getElem?.1 h
      exact ⟨_, .inl ⟨p, hit, hp, rfl⟩, rfl, rfl⟩
    | common => exact ⟨_, .inr (.inl ⟨p, h, rfl⟩), rfl, rfl⟩
    | provided => exact ⟨_, .inr (.inr ⟨p, h, rfl⟩), rfl, rfl⟩

/-- What a kind shares with its slices is true of a position exactly when it is true of a region
that covers the position. -/
theorem Valid.exists_positionRegion_iff_covered {l : Ledger} (h : l.Valid) (hashSize cap : Nat)
    (p : Position) {Q : Kind → Prop} (hQ : ∀ k kind, Q (kind.slice hashSize k) ↔ Q kind) :
    (∃ x ∈ l.positionRegions hashSize cap, Q x.kind ∧ x.first = p) ↔
      ∃ r ∈ l.regions hashSize cap, Q r.kind ∧ r.first ≤ p ∧ p ≤ r.last := by
  constructor
  · rintro ⟨x, hx, hkind, rfl⟩
    obtain ⟨r, hr, k, hk, rfl⟩ := h.exists_slice_of_mem_positionRegions hx
    have hordered := (h.fits_of_mem_regions hr).ordered
    rw [Region.slice, Region.single] at hkind ⊢
    exact ⟨r, hr, (hQ k r.kind).1 hkind, by dsimp only; grind, by dsimp only; grind⟩
  · rintro ⟨r, hr, hkind, hfirst, hlast⟩
    refine ⟨r.slice hashSize (p - r.first), h.slice_mem_positionRegions hr (by grind), ?_, ?_⟩
    · exact (hQ _ r.kind).2 hkind
    · rw [Region.slice, Region.single]
      dsimp only
      grind

/-- A region of some type covers a position exactly when the position is of that type. -/
theorem Valid.isTagged_iff_covered {l : Ledger} (h : l.Valid) (hashSize cap : Nat) (p : Position)
    (tag : Tag) :
    l.IsTagged p tag ↔
      ∃ r ∈ l.regions hashSize cap, r.kind.tag = tag ∧ r.first ≤ p ∧ p ≤ r.last := by
  rw [← exists_positionRegion_iff l hashSize cap]
  exact h.exists_positionRegion_iff_covered hashSize cap p (Q := fun kind => kind.tag = tag)
    fun k kind => by rw [Kind.tag_slice]

/-- **Merging loses and invents nothing.**  After every run, for every hash size and every cap, the
regions expand to exactly the regions of the single positions; they ascend strictly without an
overlap; and those of each type cover exactly the positions of that type. -/
theorem regions_lossless (s : Submission) (width : Nat) (marks : List Mark) (hashSize cap : Nat) :
    let l := (ofSubmission s width).recordAll marks
    (l.regions hashSize cap).flatMap (Region.expand hashSize) = l.positionRegions hashSize cap ∧
      (∀ r ∈ l.regions hashSize cap, r.first ≤ r.last) ∧
      (l.regions hashSize cap).Pairwise (fun a b => a.last < b.first) ∧
      ∀ p tag, l.IsTagged p tag ↔
        ∃ r ∈ l.regions hashSize cap, r.kind.tag = tag ∧ r.first ≤ p ∧ p ≤ r.last := by
  intro l
  have hvalid := valid_recordAll s width marks
  exact ⟨hvalid.flatMap_expand_regions hashSize cap,
    fun r hr => (hvalid.fits_of_mem_regions hr).ordered, hvalid.pairwise_regions hashSize cap,
    hvalid.isTagged_iff_covered hashSize cap⟩

end Ledger
end Resemblance
