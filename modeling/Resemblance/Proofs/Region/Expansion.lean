import Resemblance.Region.Merge

/-!
# Regions expand to positions

Merging keeps only the ends of a region and of its windows.  Nothing is lost by that: the region of
each single position can be read off again.  That a region ends where it should is a matter of the
order of positions, which the regions of a ledger come in; the ends of windows may wrap around.

## What is here

* `Region.expand` — the regions of the single positions of a region.
* `Region.Fits` — the width law that makes this work: every window is as long as its region and the
  tokens of one fingerprint together.  Regions of single positions have it, and growing keeps it.
* `Region.pairwise_grow` — regions that end one after the other still do when one was taken in.
* `Region.flatMap_expand_merge` — expanding what was merged gives back what there was before.
* `Region.fits_of_mem_merge` — what was merged has the width law.
-/

set_option autoImplicit false
namespace Resemblance

/-! ## Reading one position off a region -/

/-- The window of the `k`-th position of a region, for a window of the whole region.  A hash size of
zero counts as one. -/
def Window.slice (hashSize : Nat) (k : Position) (w : Window) : Window :=
  ⟨w.first + k, w.first + k + UInt64.ofNat (max hashSize 1 - 1)⟩

/-- A group with the windows of the `k`-th position. -/
def Group.slice (hashSize : Nat) (k : Position) (g : Group) : Group :=
  { g with windows := g.windows.map (Window.slice hashSize k) }

/-- A kind with the windows of the `k`-th position. -/
def Kind.slice (hashSize : Nat) (k : Position) : Kind → Kind
  | .matched others => .matched (others.map (Group.slice hashSize k))
  | kind => kind

namespace Region

/-- The region of the `k`-th position of a region, counted from zero. -/
def slice (hashSize : Nat) (r : Region) (k : Position) : Region :=
  single (r.first + k) (r.kind.slice hashSize k)

/-- The regions of the single positions of a region. -/
def expand (hashSize : Nat) (r : Region) : List Region :=
  (List.range ((r.last - r.first).toNat + 1)).map fun k => r.slice hashSize (UInt64.ofNat k)

end Region

/-- A slice is of the type of the whole. -/
theorem Kind.tag_slice (hashSize : Nat) (k : Position) (kind : Kind) :
    (kind.slice hashSize k).tag = kind.tag := by
  cases kind <;> rfl

/-! ## Growing changes no slice -/

@[simp] theorem Window.first_grow (w : Window) : w.grow.first = w.first := rfl

@[simp] theorem Window.last_grow (w : Window) : w.grow.last = w.last + 1 := rfl

@[simp] theorem Region.first_grow (r : Region) : r.grow.first = r.first := rfl

@[simp] theorem Region.last_grow (r : Region) : r.grow.last = r.last + 1 := rfl

@[simp] theorem Region.kind_grow (r : Region) : r.grow.kind = r.kind.grow := rfl

theorem Group.slice_grow (hashSize : Nat) (k : Position) (g : Group) :
    g.grow.slice hashSize k = g.slice hashSize k := by
  rw [slice, slice, grow, List.map_map]
  rfl

theorem Kind.slice_grow (hashSize : Nat) (k : Position) (kind : Kind) :
    kind.grow.slice hashSize k = kind.slice hashSize k := by
  cases kind with
  | matched others =>
    rw [grow, slice, slice, List.map_map]
    exact congrArg matched (List.map_congr_left fun g _ => Group.slice_grow hashSize k g)
  | common => rfl
  | provided => rfl

/-! ## The width law -/

/-- Every window of a kind is `n` longer than a single position. -/
def Kind.HasWidth (n : Position) : Kind → Prop
  | .matched others => ∀ g ∈ others, ∀ w ∈ g.windows, w.last = w.first + n
  | _ => True

theorem Kind.HasWidth.grow {n : Position} {kind : Kind} (h : kind.HasWidth n) :
    kind.grow.HasWidth (n + 1) := by
  cases kind with
  | matched others =>
    intro g' hg' w' hw'
    obtain ⟨g, hg, rfl⟩ := List.mem_map.1 hg'
    obtain ⟨w, hw, rfl⟩ := List.mem_map.1 hw'
    rw [Window.first_grow, Window.last_grow, h g hg w hw, UInt64.add_assoc]
  | common => trivial
  | provided => trivial

/-- A list that continues another is got from it by any map that continues single items. -/
theorem map_eq_of_itemwise {α : Type} {related : α → α → Bool} {f : α → α} :
    ∀ {as bs : List α}, itemwise related as bs = true →
      (∀ a ∈ as, ∀ b ∈ bs, related a b = true → f a = b) → as.map f = bs
  | [], [], _, _ => rfl
  | [], _ :: _, h, _ => by simp [itemwise] at h
  | _ :: _, [], h, _ => by simp [itemwise] at h
  | a :: as, b :: bs, h, hf => by
    rw [itemwise, Bool.and_eq_true] at h
    rw [List.map_cons, hf a List.mem_cons_self b List.mem_cons_self h.1,
      map_eq_of_itemwise h.2 fun x hx y hy =>
        hf x (List.mem_cons_of_mem a hx) y (List.mem_cons_of_mem b hy)]

/-- What continues a kind is its next slice, when the windows have the widths they should. -/
theorem Kind.slice_of_continuedBy {hashSize : Nat} {n : Position} {before after : Kind}
    (h : before.continuedBy after = true)
    (hb : before.HasWidth (n + UInt64.ofNat (max hashSize 1 - 1)))
    (ha : after.HasWidth (UInt64.ofNat (max hashSize 1 - 1))) :
    before.slice hashSize (n + 1) = after := by
  cases before with
  | matched others =>
    cases after with
    | matched laters =>
      refine congrArg matched (map_eq_of_itemwise h fun g hg g' hg' hgroup => ?_)
      rw [Group.continuedBy, Group.samePeer, Bool.and_eq_true, beq_iff_eq] at hgroup
      have hwindows : g.windows.map (Window.slice hashSize (n + 1)) = g'.windows := by
        refine map_eq_of_itemwise hgroup.2 fun w hw w' hw' hwindow => ?_
        rw [Window.continuedBy, beq_iff_eq] at hwindow
        have hbefore := hb g hg w hw
        have hafter := ha g' hg' w' hw'
        obtain ⟨first, last⟩ := w'
        rw [Window.slice, Window.mk.injEq]
        dsimp only at *
        -- both windows are as long, and one ends right after the other
        grind
      obtain ⟨peer, windows⟩ := g'
      rw [Group.slice, Group.mk.injEq]
      exact ⟨hgroup.1, hwindows⟩
    | common => exact absurd h (by simp [continuedBy])
    | provided => exact absurd h (by simp [continuedBy])
  | common => cases after <;> first | rfl | exact absurd h (by simp [continuedBy])
  | provided => cases after <;> first | rfl | exact absurd h (by simp [continuedBy])

namespace Region

/-- A region ends where it begins or later, and its windows are as long as the region and the tokens
of one fingerprint together. -/
structure Fits (hashSize : Nat) (r : Region) : Prop where
  ordered : r.first ≤ r.last
  width : r.kind.HasWidth (r.last - r.first + UInt64.ofNat (max hashSize 1 - 1))

/-- The region of one position, with the windows of one fingerprint. -/
def IsSingle (hashSize : Nat) (r : Region) : Prop :=
  r.first = r.last ∧ r.kind.HasWidth (UInt64.ofNat (max hashSize 1 - 1))

theorem IsSingle.fits {hashSize : Nat} {r : Region} (h : r.IsSingle hashSize) :
    r.Fits hashSize := by
  refine ⟨h.1 ▸ UInt64.le_refl _, ?_⟩
  rw [h.1, UInt64.sub_self, UInt64.zero_add]
  exact h.2

/-- A region may grow while there are positions after it. -/
theorem Fits.grow {hashSize : Nat} {r : Region} (h : r.Fits hashSize) {p : Position}
    (hp : r.last < p) : r.grow.Fits hashSize := by
  have hordered := h.ordered
  refine ⟨?_, ?_⟩
  · rw [first_grow, last_grow]
    grind
  · have hlength : r.grow.last - r.grow.first + UInt64.ofNat (max hashSize 1 - 1) =
        r.last - r.first + UInt64.ofNat (max hashSize 1 - 1) + 1 := by
      rw [first_grow, last_grow]
      grind
    rw [hlength]
    exact h.width.grow

theorem mem_expand_iff {hashSize : Nat} {r x : Region} :
    x ∈ r.expand hashSize ↔ ∃ k ≤ r.last - r.first, r.slice hashSize k = x := by
  simp only [expand, List.mem_map, List.mem_range, Nat.lt_succ_iff]
  constructor
  · rintro ⟨k, hk, rfl⟩
    refine ⟨UInt64.ofNat k, ?_, rfl⟩
    rwa [UInt64.le_iff_toNat_le,
      UInt64.toNat_ofNat_of_lt' (Nat.lt_of_le_of_lt hk (UInt64.toNat_lt_size _))]
  · rintro ⟨k, hk, rfl⟩
    exact ⟨k.toNat, UInt64.le_iff_toNat_le.1 hk, by rw [UInt64.ofNat_toNat]⟩

/-! ## Merging -/

/-- The single position of a kind is its own slice. -/
theorem IsSingle.expand {hashSize : Nat} {r : Region} (h : r.IsSingle hashSize) :
    r.expand hashSize = [r] := by
  obtain ⟨first, last, kind⟩ := r
  obtain ⟨hends, hwidth⟩ := h
  dsimp only at hends hwidth
  subst hends
  have hkind : kind.slice hashSize 0 = kind := by
    cases kind with
    | matched others =>
      refine congrArg Kind.matched ((List.map_congr_left fun g hg => ?_).trans (List.map_id _))
      have hwindows : g.windows.map (Window.slice hashSize 0) = g.windows := by
        refine (List.map_congr_left fun w hw => ?_).trans (List.map_id _)
        have := hwidth g hg w hw
        obtain ⟨a, b⟩ := w
        rw [Window.slice, UInt64.add_zero]
        exact congrArg (Window.mk a) this.symm
      rw [Group.slice, hwindows]
      rfl
    | common => rfl
    | provided => rfl
  have hzero : UInt64.ofNat 0 = 0 := rfl
  rw [Region.expand, UInt64.sub_self, UInt64.toNat_zero, Nat.zero_add, List.range_one,
    List.map_singleton, hzero, slice, hkind, UInt64.add_zero]
  rfl

/-- **Growing by a region that continues adds exactly that region.** -/
theorem Fits.expand_grow {hashSize : Nat} {opened r : Region} (h : opened.Fits hashSize)
    (hr : r.IsSingle hashSize) (hlt : opened.last < r.last) (hcont : opened.continuedBy r = true) :
    opened.grow.expand hashSize = opened.expand hashSize ++ [r] := by
  rw [continuedBy, Bool.and_eq_true, beq_iff_eq] at hcont
  obtain ⟨hlast, hkind⟩ := hcont
  have hordered := h.ordered
  have hslice : opened.grow.slice hashSize = opened.slice hashSize := by
    funext k
    rw [slice, slice, first_grow, kind_grow, Kind.slice_grow]
  have hcount : (opened.grow.last - opened.grow.first).toNat =
      (opened.last - opened.first).toNat + 1 := by
    have hnext : opened.grow.last - opened.grow.first = opened.last - opened.first + 1 := by
      rw [first_grow, last_grow]
      grind
    have hlength : opened.last - opened.first < r.last - opened.first := by grind
    rw [hnext, Position.toNat_add_one hlength]
  have hnext : opened.slice hashSize (opened.last - opened.first + 1) = r := by
    rw [slice, Kind.slice_of_continuedBy hkind h.width hr.2, single]
    obtain ⟨hends, -⟩ := hr
    obtain ⟨first, last, kind⟩ := r
    dsimp only at hends hlast
    rw [Region.mk.injEq]
    exact ⟨by grind, by grind, rfl⟩
  rw [Region.expand, hcount, List.range_succ, List.map_append, hslice, List.map_singleton,
    UInt64.ofNat_add, UInt64.ofNat_toNat, UInt64.ofNat_one, hnext]
  rfl

/-- Regions that end one after the other still do when the first takes in the second. -/
theorem pairwise_grow {opened r : Region} {rs : List Region}
    (h : (opened :: r :: rs).Pairwise fun a b => a.last < b.last)
    (hcont : opened.continuedBy r = true) :
    (opened.grow :: rs).Pairwise fun a b => a.last < b.last := by
  rw [continuedBy, Bool.and_eq_true, beq_iff_eq] at hcont
  obtain ⟨hr, hrs⟩ := List.pairwise_cons.1 (List.pairwise_cons.1 h).2
  refine List.pairwise_cons.2 ⟨fun y hy => ?_, hrs⟩
  -- the grown region ends where the second one does
  rw [last_grow, ← hcont.1]
  exact hr y hy

theorem flatMap_expand_mergeInto {hashSize : Nat} :
    ∀ (rs : List Region) {opened : Region}, opened.Fits hashSize →
      (opened :: rs).Pairwise (fun a b => a.last < b.last) → (∀ r ∈ rs, r.IsSingle hashSize) →
        (mergeInto opened rs).flatMap (expand hashSize) = opened.expand hashSize ++ rs
  | [], opened, _, _, _ => by rw [mergeInto, List.flatMap_singleton, List.append_nil]
  | r :: rs, opened, h, hends, hrs => by
    obtain ⟨hr, hrest⟩ := List.forall_mem_cons.1 hrs
    obtain ⟨hopened, hlater⟩ := List.pairwise_cons.1 hends
    have hlt := hopened r List.mem_cons_self
    rw [mergeInto]
    split
    · rename_i hcont
      rw [flatMap_expand_mergeInto rs (h.grow hlt) (pairwise_grow hends hcont) hrest,
        h.expand_grow hr hlt hcont, List.append_assoc, List.singleton_append]
    · rw [List.flatMap_cons, flatMap_expand_mergeInto rs hr.fits hlater hrest, hr.expand,
        List.singleton_append]

theorem fits_of_mem_mergeInto {hashSize : Nat} :
    ∀ (rs : List Region) {opened : Region}, opened.Fits hashSize →
      (opened :: rs).Pairwise (fun a b => a.last < b.last) → (∀ r ∈ rs, r.IsSingle hashSize) →
        ∀ r ∈ mergeInto opened rs, r.Fits hashSize
  | [], opened, h, _, _, r, hr => by
    rw [mergeInto, List.mem_singleton] at hr
    exact hr ▸ h
  | x :: xs, opened, h, hends, hxs, r, hr => by
    obtain ⟨hx, hrest⟩ := List.forall_mem_cons.1 hxs
    obtain ⟨hopened, hlater⟩ := List.pairwise_cons.1 hends
    rw [mergeInto] at hr
    split at hr
    · rename_i hcont
      exact fits_of_mem_mergeInto xs (h.grow (hopened x List.mem_cons_self))
        (pairwise_grow hends hcont) hrest r hr
    · rcases List.mem_cons.1 hr with rfl | hr
      · exact h
      · exact fits_of_mem_mergeInto xs hx.fits hlater hrest r hr

section Merge

variable {hashSize : Nat} {rs : List Region} (hends : rs.Pairwise fun a b => a.last < b.last)
  (h : ∀ r ∈ rs, r.IsSingle hashSize)

include hends h

/-- **Expanding what was merged gives back the single positions.** -/
theorem flatMap_expand_merge : (merge rs).flatMap (expand hashSize) = rs := by
  cases rs with
  | nil => rfl
  | cons r rs =>
    obtain ⟨hr, hrest⟩ := List.forall_mem_cons.1 h
    rw [merge, flatMap_expand_mergeInto rs hr.fits hends hrest, hr.expand, List.singleton_append]

theorem fits_of_mem_merge : ∀ r ∈ merge rs, r.Fits hashSize := by
  cases rs with
  | nil => exact fun r hr => absurd hr (by simp [merge])
  | cons x xs =>
    obtain ⟨hx, hrest⟩ := List.forall_mem_cons.1 h
    exact fits_of_mem_mergeInto xs hx.fits hends hrest

end Merge

end Region
end Resemblance
