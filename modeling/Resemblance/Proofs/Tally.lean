import Mathlib.Data.List.Nodup
import Resemblance.Tally

/-!
# Laws of tallies

A tally is spoken of through `Tally.count`, which is zero for what the tally does not hold.

## What is here

* `count_add`, `count_remove`, `count_removeEach` — the counts after a change.
* `Tally.Tight` — no count is zero and no peer is without counts.  All changes keep this, so a
  tight tally is determined by its counts (`Tight.eq_of_count`).
-/

set_option autoImplicit false
namespace Resemblance
namespace Tally

open Std

/-! ## Counts -/

theorem count_add (t : Tally) (peer other : Peer) (f g : Fingerprint) :
    (t.add peer f).count other g = t.count other g + if peer = other ∧ f = g then 1 else 0 := by
  by_cases hp : peer = other
  · subst hp
    rw [count, count, add, ExtTreeMap.getElem?_alter_self, Option.bind_some,
      ExtTreeMap.getElem?_alter]
    cases t[peer]? <;> by_cases hf : f = g <;> simp [hf]
  · simp [count, add, ExtTreeMap.getElem?_alter, hp]

/-- A count of zero stays at zero. -/
theorem count_remove (t : Tally) (peer other : Peer) (f g : Fingerprint) :
    (t.remove peer f).count other g = t.count other g - if peer = other ∧ f = g then 1 else 0 := by
  by_cases hp : peer = other
  · subst hp
    rw [count, count, remove, ExtTreeMap.getElem?_alter_self]
    cases ht : t[peer]? with
    | none => simp
    | some counts =>
      have hlook : (counts.alter f lower)[g]?.getD 0 =
          counts[g]?.getD 0 - if f = g then 1 else 0 := by
        rw [ExtTreeMap.getElem?_alter]
        by_cases hf : f = g
        · subst hf
          rcases counts[f]? with _ | _ | _ | n <;> simp [lower]
        · simp [hf]
      simp only [Option.bind_some, true_and]
      rw [← hlook]
      split
      · rename_i hempty
        rw [ExtTreeMap.isEmpty_iff] at hempty
        simp [hempty]
      · simp
  · simp [count, remove, ExtTreeMap.getElem?_alter, hp]

theorem count_removeEach {peers : List Peer} (hpeers : peers.Nodup) (t : Tally) (other : Peer)
    (f g : Fingerprint) :
    (t.removeEach f peers).count other g =
      t.count other g - if other ∈ peers ∧ f = g then 1 else 0 := by
  induction peers generalizing t with
  | nil => simp [removeEach]
  | cons peer peers ih =>
    obtain ⟨hnot, hrest⟩ := List.nodup_cons.1 hpeers
    have hstep : t.removeEach f (peer :: peers) = (t.remove peer f).removeEach f peers := rfl
    rw [hstep, ih hrest, count_remove]
    by_cases hp : peer = other
    · subst hp
      simp [hnot]
    · simp [hp, Ne.symm hp]

/-! ## Tight tallies -/

/-- No count is zero, and every peer has a count. -/
structure Tight (t : Tally) : Prop where
  /-- A peer is in the tally only with some fingerprint. -/
  nonempty : ∀ {peer : Peer} {counts : ExtTreeMap Fingerprint Nat},
    t[peer]? = some counts → counts ≠ ∅
  /-- A fingerprint is there only with a positive count. -/
  pos : ∀ {peer : Peer} {counts : ExtTreeMap Fingerprint Nat} {f : Fingerprint} {n : Nat},
    t[peer]? = some counts → counts[f]? = some n → 0 < n

namespace Tight

variable {t : Tally}

theorem empty : Tight ∅ := ⟨fun h => by simp at h, fun h => by simp at h⟩

theorem add (h : t.Tight) (peer : Peer) (f : Fingerprint) : (t.add peer f).Tight := by
  constructor
  · intro other counts hc
    rw [Tally.add, ExtTreeMap.getElem?_alter] at hc
    split at hc
    · cases hc
      intro hempty
      have := congrArg (fun m : ExtTreeMap Fingerprint Nat => m[f]?) hempty
      simp at this
    · exact h.nonempty hc
  · intro other counts g n hc hn
    rw [Tally.add, ExtTreeMap.getElem?_alter] at hc
    split at hc
    · cases hc
      rw [ExtTreeMap.getElem?_alter] at hn
      split at hn
      · cases hn
        exact Nat.succ_pos _
      · cases ht : t[peer]? with
        | none => simp [ht] at hn
        | some counts =>
          rw [ht] at hn
          exact h.pos ht hn
    · exact h.pos hc hn

theorem lower_pos {o : Option Nat} {n : Nat} (h : lower o = some n) : 0 < n := by
  rcases o with _ | _ | _ | m
  · exact absurd h (by simp [lower])
  · exact absurd h (by simp [lower])
  · exact absurd h (by simp [lower])
  · rw [lower, Option.some_inj] at h
    omega

theorem remove (h : t.Tight) (peer : Peer) (f : Fingerprint) : (t.remove peer f).Tight := by
  -- a peer that is left has what is left of its counts, and these are not empty
  have hleft : ∀ {other : Peer} {counts : ExtTreeMap Fingerprint Nat},
      (t.remove peer f)[other]? = some counts →
        t[other]? = some counts ∨
          ∃ old, t[other]? = some old ∧ counts = old.alter f lower ∧ counts ≠ ∅ := by
    intro other counts hc
    rw [Tally.remove, ExtTreeMap.getElem?_alter] at hc
    split at hc
    · rename_i heq
      rw [Std.compare_eq_iff_eq] at heq
      subst heq
      cases ht : t[peer]? with
      | none => simp [ht] at hc
      | some old =>
        simp only [ht] at hc
        split at hc
        · exact absurd hc (by simp)
        · rename_i hne
          cases hc
          exact .inr ⟨old, rfl, rfl, fun he => hne (ExtTreeMap.isEmpty_iff.2 he)⟩
    · exact .inl hc
  constructor
  · intro other counts hc
    rcases hleft hc with hold | ⟨old, -, -, hne⟩
    · exact h.nonempty hold
    · exact hne
  · intro other counts g n hc hn
    rcases hleft hc with hold | ⟨old, hold, rfl, -⟩
    · exact h.pos hold hn
    · rw [ExtTreeMap.getElem?_alter] at hn
      split at hn
      · exact lower_pos hn
      · exact h.pos hold hn

theorem removeEach (h : t.Tight) (f : Fingerprint) (peers : List Peer) :
    (t.removeEach f peers).Tight := by
  induction peers generalizing t with
  | nil => exact h
  | cons peer peers ih => exact ih (h.remove peer f)

/-- The count of what a tally holds. -/
theorem count_eq {peer : Peer} {counts : ExtTreeMap Fingerprint Nat} (h : t[peer]? = some counts)
    (f : Fingerprint) : t.count peer f = counts[f]?.getD 0 := by
  rw [count, h, Option.bind_some]

/-- The counts of a peer answer for exactly the fingerprints whose count is not zero. -/
theorem getElem?_counts (h : t.Tight) {peer : Peer} {counts : ExtTreeMap Fingerprint Nat}
    (hc : t[peer]? = some counts) (f : Fingerprint) :
    counts[f]? = if t.count peer f = 0 then none else some (t.count peer f) := by
  rw [count_eq hc]
  cases hf : counts[f]? with
  | none => rfl
  | some n => rw [Option.getD_some, if_neg (Nat.ne_of_gt (h.pos hc hf))]

theorem mem_counts_iff (h : t.Tight) {peer : Peer} {counts : ExtTreeMap Fingerprint Nat}
    (hc : t[peer]? = some counts) (f : Fingerprint) : f ∈ counts ↔ 0 < t.count peer f := by
  rw [ExtTreeMap.mem_iff_isSome_getElem?, h.getElem?_counts hc]
  split
  · rename_i hzero
    simp [hzero]
  · rename_i hne
    simp [Nat.pos_of_ne_zero hne]

/-- A peer without counts has the count zero everywhere. -/
theorem getElem?_eq_none_iff (h : t.Tight) (peer : Peer) :
    t[peer]? = none ↔ ∀ f, t.count peer f = 0 := by
  constructor
  · intro hn f
    rw [count, hn, Option.bind_none, Option.getD_none]
  · intro hzero
    cases hc : t[peer]? with
    | none => rfl
    | some counts =>
      obtain ⟨f, hf⟩ : ∃ f, f ∈ counts := by
        by_contra hnone
        exact h.nonempty hc (ExtTreeMap.eq_empty_iff_forall_not_mem.2 (not_exists.1 hnone))
      have := (h.mem_counts_iff hc f).1 hf
      rw [hzero] at this
      exact absurd this (Nat.lt_irrefl 0)

/-- **A tight tally is determined by its counts.** -/
theorem eq_of_count {u : Tally} (ht : t.Tight) (hu : u.Tight)
    (h : ∀ peer f, t.count peer f = u.count peer f) : t = u := by
  refine ExtTreeMap.ext_getElem? fun peer => ?_
  cases hc : t[peer]? with
  | none =>
    refine ((hu.getElem?_eq_none_iff peer).2 fun f => ?_).symm
    rw [← h, (ht.getElem?_eq_none_iff peer).1 hc]
  | some counts =>
    cases hd : u[peer]? with
    | none =>
      have := (ht.getElem?_eq_none_iff peer).2 fun f => by
        rw [h, (hu.getElem?_eq_none_iff peer).1 hd]
      rw [this] at hc
      exact absurd hc (by simp)
    | some others =>
      refine congrArg some (ExtTreeMap.ext_getElem? fun f => ?_)
      rw [ht.getElem?_counts hc, hu.getElem?_counts hd, h]

end Tight
end Tally
end Resemblance
