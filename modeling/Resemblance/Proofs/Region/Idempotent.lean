import Resemblance.Proofs.Region.Maximal

/-!
# Merging twice is merging once

A region that was refused by its predecessor may grow afterwards, so merging a second time compares
other regions than the first time did.  It still finds nothing to do when the regions of the list
end one after the other: a merged region ends like one that was in the list, and none of those
continues a merged region that ends before.

## What is here

* `Region.exists_endsLike_of_mem_merge` — what was merged ends like something in the list.
* `Region.merge_eq_self` — a list without neighbours that continue each other stays as it is.
* `Region.merge_idempotent_maximal` — the merged list is such a list, and the regions of the
  positions of a ledger end one after the other.
-/

set_option autoImplicit false
namespace Resemblance
namespace Region

/-! ## The backs of merged regions -/

/-- The back of a region decides what it continues. -/
theorem EndsLike.continues_eq {r b : Region} (h : r.EndsLike b) (c : Region) :
    c.continuedBy r = c.continuedBy b := by
  rw [Bool.eq_iff_iff, continuedBy, continuedBy, Bool.and_eq_true, Bool.and_eq_true,
    Kind.continuedBy_iff, Kind.continuedBy_iff, h.last, h.tag, h.peers, h.ends]

/-- What comes of an open region ends like a region it has taken in, or like one after these. -/
theorem exists_endsLike_of_mem_mergeInto :
    ∀ (rs : List Region) {opened b : Region}, opened.EndsLike b →
      ∀ r ∈ mergeInto opened rs, ∃ y ∈ b :: rs, r.EndsLike y
  | [], opened, b, hends, r, hr => by
    rw [mergeInto, List.mem_singleton] at hr
    subst hr
    exact ⟨b, List.mem_cons_self, hends⟩
  | x :: xs, opened, b, hends, r, hr => by
    rw [mergeInto] at hr
    by_cases hcont : opened.continuedBy x = true
    · rw [if_pos hcont] at hr
      obtain ⟨y, hy, hry⟩ := exists_endsLike_of_mem_mergeInto xs (endsLike_grow hcont) r hr
      exact ⟨y, List.mem_cons_of_mem b hy, hry⟩
    · rw [if_neg hcont] at hr
      rcases List.mem_cons.1 hr with rfl | hr
      · exact ⟨b, List.mem_cons_self, hends⟩
      · obtain ⟨y, hy, hry⟩ := exists_endsLike_of_mem_mergeInto xs (EndsLike.refl x) r hr
        exact ⟨y, List.mem_cons_of_mem b hy, hry⟩

theorem exists_endsLike_of_mem_merge {rs : List Region} {r : Region} (hr : r ∈ merge rs) :
    ∃ y ∈ rs, r.EndsLike y := by
  cases rs with
  | nil => exact absurd hr List.not_mem_nil
  | cons x xs => exact exists_endsLike_of_mem_mergeInto xs (EndsLike.refl x) r hr

/-- No merged region continues one that ends before. -/
theorem continuedBy_eq_false_of_merged {rs : List Region}
    (h : rs.Pairwise fun a b => a.last < b.last) {q r : Region} (hq : q ∈ merge rs)
    (hr : r ∈ merge rs) (hlt : q.last < r.last) : q.continuedBy r = false := by
  obtain ⟨y, hy, hends⟩ := exists_endsLike_of_mem_merge hr
  rw [hends.continues_eq]
  exact continuedBy_eq_false_of_mem_merge h hq hy (hends.last ▸ hlt)

/-! ## Lists that merging leaves alone -/

theorem mergeInto_eq_self : ∀ (rs : List Region) {opened : Region},
    (opened :: rs).IsChain (fun a b => a.continuedBy b = false) →
      mergeInto opened rs = opened :: rs
  | [], _, _ => rfl
  | x :: xs, opened, h => by
    obtain ⟨hstop, hrest⟩ := List.isChain_cons_cons.1 h
    rw [mergeInto, hstop, if_neg Bool.false_ne_true, mergeInto_eq_self xs hrest]

/-- What has nothing to merge stays as it is. -/
theorem merge_eq_self {rs : List Region}
    (h : rs.IsChain fun a b => a.continuedBy b = false) : merge rs = rs := by
  cases rs with
  | nil => rfl
  | cons x xs => exact mergeInto_eq_self xs h

/-- Neighbours that were merged do not continue each other. -/
theorem isChain_merge {rs : List Region} (h : rs.Pairwise fun a b => a.last < b.last) :
    (merge rs).IsChain fun a b => a.continuedBy b = false := by
  have hpairwise : (merge rs).Pairwise fun a b => a.continuedBy b = false :=
    (pairwise_ends_merge h).imp_of_mem fun hq hr hlt => continuedBy_eq_false_of_merged h hq hr hlt
  exact hpairwise.isChain

/-- **Merging is idempotent and maximal.**  When the regions of a list end one after the other,
merging what was merged changes nothing, and of two neighbours that were merged the second does not
continue the first.  The regions of the positions are such a list, for every ledger that a run
leads to. -/
theorem merge_idempotent_maximal :
    (∀ rs : List Region, (rs.Pairwise fun a b => a.last < b.last) →
      merge (merge rs) = merge rs ∧
        (merge rs).IsChain fun a b => a.continuedBy b = false) ∧
      ∀ (s : Submission) (width : Nat) (marks : List Mark) (hashSize cap : Nat),
        (((Ledger.ofSubmission s width).recordAll marks).positionRegions hashSize cap).Pairwise
          fun a b => a.last < b.last := by
  constructor
  · intro rs h
    exact ⟨merge_eq_self (isChain_merge h), isChain_merge h⟩
  · intro s width marks hashSize cap
    exact (Ledger.valid_recordAll s width marks).pairwise_ends hashSize cap

/-- Two runs of a peer with a gap between them, and a common position after these. -/
theorem merge_idempotent_maximal_peer :
    let rs := [single 2 (.matched [⟨⟨"bob", 1, "hw"⟩, [⟨7, 7⟩]⟩]),
      single 3 (.matched [⟨⟨"bob", 1, "hw"⟩, [⟨8, 8⟩]⟩]),
      single 4 (.matched [⟨⟨"bob", 1, "hw"⟩, [⟨30, 30⟩]⟩]), single 5 .common]
    (rs.Pairwise fun a b => a.last < b.last) ∧ (merge rs).length = 3 ∧
      merge (merge rs) = merge rs ∧
        (merge rs).IsChain fun a b => a.continuedBy b = false := by
  intro rs
  have hends : rs.Pairwise fun a b => a.last < b.last := by decide
  exact ⟨hends, by decide, merge_idempotent_maximal.1 rs hends⟩

/-- A window goes on after the last position of all, where ends begin at zero again. -/
example :
    let rs := [single 1 (.matched [⟨⟨"bob", 1, "hw"⟩, [⟨1, 0xffffffffffffffff⟩]⟩]),
      single 2 (.matched [⟨⟨"bob", 1, "hw"⟩, [⟨2, 0⟩]⟩])]
    merge rs = [⟨1, 2, .matched [⟨⟨"bob", 1, "hw"⟩, [⟨1, 0⟩]⟩]⟩] := by
  decide

/-- Without the order of the ends it is not so: here the second region is refused, and grows to the
end that the first one asks for. -/
example :
    let rs := [single 4 .common, single 4 .common, single 5 .common]
    merge rs = [⟨4, 4, .common⟩, ⟨4, 5, .common⟩] ∧ merge (merge rs) = [⟨4, 5, .common⟩] := by
  decide

end Region
end Resemblance
