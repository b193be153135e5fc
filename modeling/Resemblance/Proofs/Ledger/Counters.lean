import Mathlib.Data.List.Dedup
import Mathlib.Data.List.Perm.Subperm
import Resemblance.Proofs.Ledger.Recording
import Resemblance.Proofs.Tally

/-!
# The tally counts suspicious positions

The tally of a ledger is kept up to date mark by mark: an addition counts a peer only when its
position names it for the first time, and clearing a position takes each of its peers off once.
This file shows that nothing is ever missed or counted twice, in whatever order the marks arrive.

## What is here

* `Ledger.support` — what the count of a peer and a fingerprint is meant to be: the number of
  suspicious positions with that fingerprint that name the peer.
* `Ledger.shared` — the different fingerprints of the suspicious positions that name a peer.
* `Ledger.Counted` — the tally is tight and holds these numbers.  One mark keeps it
  (`Counted.record`), so every run leads to it (`counted_recordAll`).  The classes of such a ledger
  determine it (`Counted.eq_of_classes`).
* `Ledger.Lowers` — the decrements that clearing for a position makes, each with the tally it is
  applied to.
* `tally_exact` — after every run the tally is exact, no decrement meets a count of zero, and what
  is reported of a peer is the number of different fingerprints it shares.
-/

set_option autoImplicit false
namespace Resemblance

open Std

/-! ## What a hit adds to the counts -/

namespace Hit

/-- Whether a hit has a fingerprint and names a peer. -/
def supports (h : Hit) (peer : Peer) (f : Fingerprint) : Bool :=
  h.fingerprint == f && h.names peer

theorem supports_iff (h : Hit) (peer : Peer) (f : Fingerprint) :
    h.supports peer f = true ↔ peer ∈ h.peers ∧ h.fingerprint = f := by
  rw [supports, Bool.and_eq_true, beq_iff_eq, names_iff, mem_peers_iff, and_comm]

theorem nodup_peers (h : Hit) : h.peers.Nodup :=
  nodup_members _

theorem names_add (h : Hit) (x : Location) (peer : Peer) :
    (h.add x).names peer = (x.peer == peer || h.names peer) := by
  rw [Bool.eq_iff_iff, Bool.or_eq_true, beq_iff_eq, names_iff, names_iff]
  simp only [add, ExtTreeSet.mem_insert, Std.compare_eq_iff_eq]
  constructor
  · rintro ⟨y, rfl | hy, hpeer⟩
    · exact .inl hpeer
    · exact .inr ⟨y, hy, hpeer⟩
  · rintro (hpeer | ⟨y, hy, hpeer⟩)
    · exact ⟨x, .inl rfl, hpeer⟩
    · exact ⟨y, .inr hy, hpeer⟩

/-- One more place adds to the counts exactly when its peer was not named before. -/
theorem supports_add (h : Hit) (x : Location) (peer : Peer) (f : Fingerprint) :
    (if (h.add x).supports peer f then 1 else 0) =
      (if h.supports peer f then 1 else 0) +
        if h.names x.peer = false ∧ x.peer = peer ∧ h.fingerprint = f then 1 else 0 := by
  have hfp : (h.add x).fingerprint = h.fingerprint := rfl
  rw [supports, supports, names_add, hfp]
  by_cases hf : h.fingerprint = f
  · by_cases hp : x.peer = peer
    · subst hp
      cases h.names x.peer <;> simp [hf]
    · simp [hf, hp]
  · simp [hf]

end Hit

namespace Ledger

/-! ## What the counts are meant to be -/

/-- The number of suspicious positions with a fingerprint that name a peer. -/
def support (l : Ledger) (peer : Peer) (f : Fingerprint) : Nat :=
  l.suspicious.toList.countP fun entry => entry.2.supports peer f

/-- The different fingerprints of the suspicious positions that name a peer. -/
def shared (l : Ledger) (peer : Peer) : List Fingerprint :=
  ((l.suspicious.toList.filter fun entry => entry.2.names peer).map fun entry =>
    entry.2.fingerprint).dedup

/-- The tally holds exactly the numbers it is meant to. -/
structure Counted (l : Ledger) : Prop where
  tight : l.tally.Tight
  count : ∀ peer f, l.tally.count peer f = l.support peer f

/-- What the positions other than `p` add to a count. -/
def supportWithout (l : Ledger) (p : Position) (peer : Peer) (f : Fingerprint) : Nat :=
  (l.suspicious.erase p).toList.countP fun entry => entry.2.supports peer f

theorem support_of_getElem? {l : Ledger} {p : Position} {hit : Hit}
    (h : l.suspicious[p]? = some hit)
    (peer : Peer) (f : Fingerprint) :
    l.support peer f = l.supportWithout p peer f + if hit.supports peer f then 1 else 0 := by
  rw [support, (entries_perm_erase h).countP_eq, List.countP_cons, supportWithout]

/-- The same for the hit that an addition at `p` would extend, which may be a new one. -/
theorem support_of_hitAt (l : Ledger) (p : Position) (g : Fingerprint) (peer : Peer)
    (f : Fingerprint) :
    l.support peer f =
      l.supportWithout p peer f + if (l.hitAt p g).supports peer f then 1 else 0 := by
  cases h : l.suspicious[p]? with
  | none =>
    have hnew : (l.hitAt p g).supports peer f = false := by
      rw [hitAt, h, Option.getD_none, Hit.supports, Bool.and_eq_false_iff, ← Bool.not_eq_true,
        ← Bool.not_eq_true, Hit.names_iff]
      right
      rintro ⟨x, hx, -⟩
      exact ExtTreeSet.not_mem_empty hx
    rw [hnew, support, supportWithout, erase_eq_self h]
    rfl
  | some hit =>
    rw [support_of_getElem? h, hitAt, h, Option.getD_some]

theorem support_insert {l m : Ledger} {p : Position} {hit : Hit}
    (hm : m.suspicious = l.suspicious.insert p hit) (peer : Peer) (f : Fingerprint) :
    m.support peer f = l.supportWithout p peer f + if hit.supports peer f then 1 else 0 := by
  rw [support, hm, (entries_insert_perm _ _ _).countP_eq, List.countP_cons, supportWithout]

theorem mem_shared_iff (l : Ledger) (peer : Peer) (f : Fingerprint) :
    f ∈ l.shared peer ↔
      ∃ (p : Position) (hit : Hit),
        l.suspicious[p]? = some hit ∧ hit.names peer = true ∧ hit.fingerprint = f := by
  simp only [shared, List.mem_dedup, List.mem_map, List.mem_filter, Prod.exists,
    ExtTreeMap.mem_toList_iff_getElem?_eq_some, and_assoc]

theorem support_pos_iff (l : Ledger) (peer : Peer) (f : Fingerprint) :
    0 < l.support peer f ↔ f ∈ l.shared peer := by
  simp only [support, List.countP_pos_iff, Prod.exists, mem_shared_iff,
    ExtTreeMap.mem_toList_iff_getElem?_eq_some, Hit.supports, Bool.and_eq_true, beq_iff_eq]
  exact exists_congr fun p => exists_congr fun hit => and_congr_right fun _ => and_comm

/-! ## One mark -/

namespace Counted

variable {l : Ledger}

theorem ofSubmission (s : Submission) (width : Nat) :
    (Ledger.ofSubmission s width).Counted where
  tight := Tally.Tight.empty
  count peer f := by
    have hnone : (∅ : ExtTreeMap Position Hit).toList = [] := ExtTreeMap.toList_eq_nil_iff.2 rfl
    simp [Ledger.ofSubmission, support, Tally.count, hnone]

theorem addSuspicious (h : l.Counted) (hv : l.Valid) (p : Position) (x : Location) :
    (l.addSuspicious p x).Counted := by
  cases hp : l.admits p with
  | false => rw [addSuspicious_of_not_admits hp]; exact h
  | true =>
    obtain ⟨f, hf, heq⟩ := addSuspicious_of_admits hp x
    have hfp : (l.hitAt p f).fingerprint = f := hv.hitAt_fingerprint hf
    refine ⟨?_, fun peer g => ?_⟩
    · rw [heq]
      cases (l.hitAt p f).names x.peer with
      | true => exact h.tight
      | false => exact h.tight.add x.peer f
    · rw [support_insert (l := l) (by rw [heq]), Hit.supports_add, ← Nat.add_assoc,
        ← support_of_hitAt, ← h.count, heq, hfp]
      cases (l.hitAt p f).names x.peer with
      | true => simp
      | false => simp [Tally.count_add]

theorem clear (h : l.Counted) (p : Position) : (l.clear p).Counted := by
  rw [Ledger.clear]
  split
  · exact h
  · rename_i hit hp
    refine ⟨h.tight.removeEach _ _, fun peer f => ?_⟩
    rw [Tally.count_removeEach hit.nodup_peers, h.count, support_of_getElem? hp]
    simp only [Hit.supports_iff]
    exact Nat.add_sub_cancel _ _

theorem foldl_clear (h : l.Counted) (ps : List Position) : (ps.foldl Ledger.clear l).Counted := by
  induction ps generalizing l with
  | nil => exact h
  | cons p ps ih => exact ih (h.clear p)

theorem clearReaching (h : l.Counted) (p : Position) : (l.clearReaching p).Counted :=
  h.foldl_clear (l.reaching p)

theorem record (h : l.Counted) (hv : l.Valid) : ∀ mark, (l.record mark).Counted
  | .suspicious p x => h.addSuspicious hv p x
  | .common p => by
    rw [Ledger.record, addCommon]
    split
    · exact h
    · exact ⟨(h.clearReaching p).tight, (h.clearReaching p).count⟩
  | .provided p => ⟨(h.clearReaching p).tight, (h.clearReaching p).count⟩

end Counted

/-- An exact tally is told by the suspicious positions, so the classes determine a ledger. -/
theorem Counted.eq_of_classes {l m : Ledger} (hl : l.Counted) (hm : m.Counted)
    (hsubmission : l.submission = m.submission) (hwidth : l.width = m.width)
    (hsuspicious : l.suspicious = m.suspicious) (hcommon : l.common = m.common)
    (hprovided : l.provided = m.provided) : l = m := by
  have htally : l.tally = m.tally := by
    refine hl.tight.eq_of_count hm.tight fun peer f => ?_
    rw [hl.count, hm.count, support, hsuspicious, support]
  cases l
  cases m
  simp only at hsubmission hwidth hsuspicious hcommon hprovided htally
  rw [Ledger.mk.injEq]
  exact ⟨hsubmission, hwidth, hsuspicious, hcommon, hprovided, htally⟩

/-! ## Every run -/

theorem counted_recordAll (s : Submission) (width : Nat) (marks : List Mark) :
    ((ofSubmission s width).recordAll marks).Counted :=
  (recordAll_keeps (P := fun l => l.Valid ∧ l.Counted)
    (fun _ mark h => ⟨h.1.record mark, h.2.record h.1 mark⟩) marks
    ⟨.ofSubmission s width, .ofSubmission s width⟩).2

/-- While the positions that reach `p` are cleared, the tally `t` is lowered for the peer and the
fingerprint of a hit.  The positions before that of the hit are cleared already, and so are the
peers before this one. -/
def Lowers (l : Ledger) (p : Position) (t : Tally) (peer : Peer) (f : Fingerprint) : Prop :=
  ∃ (before : List Position) (q : Position) (after : List Position) (hit : Hit)
    (done rest : List Peer),
    l.reaching p = before ++ q :: after ∧
      (before.foldl clear l).suspicious[q]? = some hit ∧
        hit.peers = done ++ peer :: rest ∧ f = hit.fingerprint ∧
          t = (before.foldl clear l).tally.removeEach f done

/-- No decrement meets a count of zero. -/
theorem Counted.count_pos_of_lowers {l : Ledger} (h : l.Counted) {p : Position} {t : Tally}
    {peer : Peer} {f : Fingerprint} (hl : l.Lowers p t peer f) : 0 < t.count peer f := by
  obtain ⟨before, q, after, hit, done, rest, -, hq, hpeers, rfl, rfl⟩ := hl
  have hnodup : (done ++ peer :: rest).Nodup := hpeers ▸ hit.nodup_peers
  have hnot : peer ∉ done := fun hmem =>
    (List.nodup_append.1 hnodup).2.2 peer hmem peer List.mem_cons_self rfl
  rw [Tally.count_removeEach (List.nodup_append.1 hnodup).1, (h.foldl_clear before).count,
    support_of_getElem? hq, if_pos ((Hit.supports_iff _ _ _).2 ⟨by rw [hpeers]; simp, rfl⟩),
    if_neg fun hd => hnot hd.1]
  exact Nat.succ_pos _

/-- The number of fingerprints of a peer in the tally is the number it shares. -/
theorem Counted.size_counts {l : Ledger} (h : l.Counted) {peer : Peer}
    {counts : ExtTreeMap Fingerprint Nat} (hc : l.tally[peer]? = some counts) :
    counts.size = (l.shared peer).length := by
  rw [← ExtTreeMap.length_keys]
  refine List.Perm.length_eq ((List.perm_ext_iff_of_nodup ?_ (List.nodup_dedup _)).2 fun f => ?_)
  · exact ExtTreeMap.nodup_keys
  · rw [ExtTreeMap.mem_keys, h.tight.mem_counts_iff hc, h.count, support_pos_iff]
    rfl

/-- A peer is reported exactly when it shares a fingerprint, with the number of those it shares. -/
theorem Counted.mem_matched_iff {l : Ledger} (h : l.Counted) (peer : Peer) (n : Nat) :
    (peer, n) ∈ l.tally.matched ↔ 0 < n ∧ n = (l.shared peer).length := by
  simp only [Tally.matched, List.mem_map, Prod.mk.injEq, Prod.exists,
    ExtTreeMap.mem_toList_iff_getElem?_eq_some]
  constructor
  · rintro ⟨other, counts, hc, rfl, rfl⟩
    refine ⟨Nat.pos_of_ne_zero fun hzero => h.tight.nonempty hc ?_, h.size_counts hc⟩
    exact ExtTreeMap.eq_empty_iff_size_eq_zero.2 hzero
  · rintro ⟨hpos, rfl⟩
    cases hc : l.tally[peer]? with
    | some counts => exact ⟨peer, counts, hc, rfl, h.size_counts hc⟩
    | none =>
      obtain ⟨f, hf⟩ := List.exists_mem_of_length_pos hpos
      have := (support_pos_iff l peer f).2 hf
      rw [← h.count, (h.tight.getElem?_eq_none_iff peer).1 hc] at this
      exact absurd this (Nat.lt_irrefl 0)

/-- A peer shares no more fingerprints than the submission has. -/
theorem Valid.length_shared_le_distinctCount {l : Ledger} (h : l.Valid) (peer : Peer) :
    (l.shared peer).length ≤ l.submission.distinctCount := by
  rw [Submission.distinctCount, ← ExtTreeSet.length_toList]
  refine (List.subperm_of_subset (List.nodup_dedup _) fun f hf => ?_).length_le
  obtain ⟨p, hit, hp, -, rfl⟩ := (mem_shared_iff l peer f).1 hf
  simpa using Submission.mem_of_fingerprintAt? (h.fingerprint hp)

/-- A peer shares no more fingerprints than there are suspicious positions. -/
theorem length_shared_le_matchedCount (l : Ledger) (peer : Peer) :
    (l.shared peer).length ≤ l.matchedCount := by
  have hdedup := List.Sublist.length_le (List.dedup_sublist
    ((l.suspicious.toList.filter fun entry => entry.2.names peer).map fun entry =>
      entry.2.fingerprint))
  rw [List.length_map] at hdedup
  calc (l.shared peer).length
      ≤ (l.suspicious.toList.filter fun entry => entry.2.names peer).length := hdedup
    _ ≤ l.suspicious.toList.length := List.length_filter_le _ _
    _ = l.matchedCount := ExtTreeMap.length_toList

/-- **The tally is exact after every run.**  For every list of marks, in any order and at any
positions: each count is the number of suspicious positions with that fingerprint that name that
peer; no count is zero and no peer is without counts; no decrement of any further mark meets a
count of zero; and each peer is reported with the number of different fingerprints it shares, which
is at least one and at most that of the submission and that of the suspicious positions. -/
theorem tally_exact (s : Submission) (width : Nat) (marks : List Mark) :
    let l := (ofSubmission s width).recordAll marks
    (∀ peer f, l.tally.count peer f = l.support peer f) ∧
      l.tally.Tight ∧
      (∀ p t peer f, l.Lowers p t peer f → 0 < t.count peer f) ∧
      (∀ peer n, (peer, n) ∈ l.tally.matched ↔ 0 < n ∧ n = (l.shared peer).length) ∧
      ∀ peer n, (peer, n) ∈ l.tally.matched → 1 ≤ n ∧ n ≤ min s.distinctCount l.matchedCount := by
  intro l
  have hc : l.Counted := counted_recordAll s width marks
  refine ⟨hc.count, hc.tight, fun p t peer f => hc.count_pos_of_lowers,
    hc.mem_matched_iff, fun peer n hn => ?_⟩
  obtain ⟨hpos, rfl⟩ := (hc.mem_matched_iff peer n).1 hn
  have hdistinct := (valid_recordAll s width marks).length_shared_le_distinctCount peer
  rw [submission_recordAll] at hdistinct
  exact ⟨hpos, Nat.le_min.2 ⟨hdistinct, length_shared_le_matchedCount l peer⟩⟩

end Ledger
end Resemblance
