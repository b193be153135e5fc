import Resemblance.Proofs.Ledger.Counters
import Resemblance.Proofs.Region.Maximal
import Resemblance.Ranking.Basic

/-!
# The ranking of peers agrees with the regions

A submission gets two reports.  The ranking of its peers is read from the tally, which every mark
keeps up to date; the regions are read from the suspicious positions, through grouping and merging.
Both speak of the same peers, and of the same fingerprints for each of them.

## What is here

* `Region.positions` — the positions a region covers.
* `Hit.names_iff_mem_peers` — grouping keeps the peers of a hit.
* `Ledger.exists_hit_iff` — a suspicious position names a peer exactly when a region that covers the
  position does.
* `Ledger.fingerprintsOf` — the different fingerprints at the positions of the regions that name a
  peer; they are those the peer shares (`Valid.fingerprintsOf_perm`).
* `Standing.peer?` — the peer a standing is about.
* `Ledger.rankPeers_agrees` — after every run, both reports agree.
-/

set_option autoImplicit false
namespace Resemblance

open Std

/-! ## What a region says -/

namespace Region

/-- The positions that a region covers. -/
def positions (r : Region) : List Position :=
  (List.range' r.first.toNat (r.last.toNat + 1 - r.first.toNat)).map UInt64.ofNat

theorem mem_positions_iff (r : Region) (p : Position) :
    p ∈ r.positions ↔ r.first ≤ p ∧ p ≤ r.last := by
  have hlast := r.last.toNat_lt_size
  simp only [positions, List.mem_map, List.mem_range'_1, UInt64.le_iff_toNat_le]
  constructor
  · rintro ⟨i, hi, rfl⟩
    rw [UInt64.toNat_ofNat_of_lt' (by omega)]
    omega
  · exact fun h => ⟨p.toNat, by omega, UInt64.ofNat_toNat⟩

theorem isMatch_iff (r : Region) : r.isMatch = true ↔ r.kind.tag = .matched := by
  obtain ⟨first, last, kind⟩ := r
  cases kind <;> simp [isMatch, Kind.tag]

end Region

/-- The groups of a hit are of the peers it names. -/
theorem Hit.names_iff_mem_peers (hit : Hit) (hashSize cap : Nat) (peer : Peer) :
    hit.names peer = true ↔
      peer ∈ (Kind.matched (Group.ofLocations hashSize cap hit.locations.toList)).peers := by
  rw [names_iff, Kind.peers, Kind.groups, List.mem_map, exists_group_iff]
  simp only [ExtTreeSet.mem_toList]

/-! ## What the regions of a ledger say -/

namespace Ledger

/-- A suspicious position names a peer exactly when a region that covers the position does. -/
theorem Valid.exists_hit_iff {l : Ledger} (h : l.Valid) (hashSize cap : Nat) (p : Position)
    (peer : Peer) : (∃ hit : Hit, l.suspicious[p]? = some hit ∧ hit.names peer = true) ↔
      ∃ r ∈ l.regions hashSize cap, peer ∈ r.kind.peers ∧ p ∈ r.positions := by
  have hcovered := h.exists_positionRegion_iff_covered hashSize cap p
    (Q := fun kind => peer ∈ kind.peers) fun k kind => by rw [Kind.peers_slice]
  simp only [Region.mem_positions_iff]
  rw [← hcovered]
  simp only [mem_positionRegions_iff]
  constructor
  · rintro ⟨hit, hp, hpeer⟩
    exact ⟨_, .inl ⟨p, hit, hp, rfl⟩, (hit.names_iff_mem_peers hashSize cap peer).1 hpeer, rfl⟩
  · rintro ⟨x, ⟨q, hit, hq, rfl⟩ | ⟨q, -, rfl⟩ | ⟨q, -, rfl⟩, hpeer, rfl⟩
    · exact ⟨hit, hq, (hit.names_iff_mem_peers hashSize cap peer).2 hpeer⟩
    · exact absurd hpeer List.not_mem_nil
    · exact absurd hpeer List.not_mem_nil

/-- The different fingerprints at the positions that the regions naming a peer cover. -/
def fingerprintsOf (l : Ledger) (hashSize cap : Nat) (peer : Peer) : List Fingerprint :=
  (((l.regions hashSize cap).filter fun r => peer ∈ r.kind.peers).flatMap fun r =>
    r.positions.filterMap l.submission.fingerprintAt?).dedup

theorem mem_fingerprintsOf_iff (l : Ledger) (hashSize cap : Nat) (peer : Peer) (f : Fingerprint) :
    f ∈ l.fingerprintsOf hashSize cap peer ↔
      ∃ p, l.submission.fingerprintAt? p = some f ∧
        ∃ r ∈ l.regions hashSize cap, peer ∈ r.kind.peers ∧ p ∈ r.positions := by
  simp only [fingerprintsOf, List.mem_dedup, List.mem_flatMap, List.mem_filter, List.mem_filterMap,
    decide_eq_true_eq]
  constructor
  · rintro ⟨r, ⟨hr, hpeer⟩, p, hp, hf⟩
    exact ⟨p, hf, r, hr, hpeer, hp⟩
  · rintro ⟨p, hf, r, hr, hpeer, hp⟩
    exact ⟨r, ⟨hr, hpeer⟩, p, hp, hf⟩

/-- The regions that name a peer cover exactly the fingerprints it shares. -/
theorem Valid.fingerprintsOf_perm {l : Ledger} (h : l.Valid) (hashSize cap : Nat) (peer : Peer) :
    (l.fingerprintsOf hashSize cap peer).Perm (l.shared peer) := by
  have hcovered : (l.fingerprintsOf hashSize cap peer).Nodup := List.nodup_dedup _
  have hshared : (l.shared peer).Nodup := List.nodup_dedup _
  refine (List.perm_ext_iff_of_nodup hcovered hshared).2 fun f => ?_
  rw [mem_fingerprintsOf_iff, mem_shared_iff]
  constructor
  · rintro ⟨p, hf, hregion⟩
    obtain ⟨hit, hp, hpeer⟩ := (h.exists_hit_iff hashSize cap p peer).2 hregion
    rw [h.fingerprint hp, Option.some_inj] at hf
    exact ⟨p, hit, hp, hpeer, hf⟩
  · rintro ⟨p, hit, hp, hpeer, rfl⟩
    exact ⟨p, h.fingerprint hp, (h.exists_hit_iff hashSize cap p peer).1 ⟨hit, hp, hpeer⟩⟩

/-- A region names a peer exactly when the peer shares a fingerprint. -/
theorem Valid.exists_region_iff {l : Ledger} (h : l.Valid) (hashSize cap : Nat) (peer : Peer) :
    (∃ r ∈ l.regions hashSize cap, peer ∈ r.kind.peers) ↔ 0 < (l.shared peer).length := by
  rw [List.length_pos_iff_exists_mem]
  constructor
  · rintro ⟨r, hr, hpeer⟩
    have hfirst : r.first ∈ r.positions :=
      (r.mem_positions_iff r.first).2 ⟨UInt64.le_refl _, (h.fits_of_mem_regions hr).ordered⟩
    obtain ⟨hit, hp, hnames⟩ :=
      (h.exists_hit_iff hashSize cap r.first peer).2 ⟨r, hr, hpeer, hfirst⟩
    exact ⟨hit.fingerprint, (mem_shared_iff l peer _).2 ⟨r.first, hit, hp, hnames, rfl⟩⟩
  · rintro ⟨f, hf⟩
    obtain ⟨p, hit, hp, hnames, -⟩ := (mem_shared_iff l peer f).1 hf
    obtain ⟨r, hr, hpeer, -⟩ := (h.exists_hit_iff hashSize cap p peer).1 ⟨hit, hp, hnames⟩
    exact ⟨r, hr, hpeer⟩

theorem hasSuspicion_iff (l : Ledger) : l.hasSuspicion = true ↔ ∃ p, p ∈ l.suspicious := by
  rw [hasSuspicion, ← ExtTreeMap.isEmpty_keys, Bool.not_eq_true',
    List.isEmpty_eq_false_iff_exists_mem]
  simp only [ExtTreeMap.mem_keys]

/-- Something is suspicious exactly when there is a match. -/
theorem Valid.hasSuspicion_iff_exists_isMatch {l : Ledger} (h : l.Valid) (hashSize cap : Nat) :
    l.hasSuspicion = true ↔ ∃ r ∈ l.regions hashSize cap, r.isMatch = true := by
  have hcovered := fun p => h.isTagged_iff_covered hashSize cap p .matched
  rw [hasSuspicion_iff]
  constructor
  · rintro ⟨p, hp⟩
    obtain ⟨r, hr, htag, -⟩ := (hcovered p).1 hp
    exact ⟨r, hr, r.isMatch_iff.2 htag⟩
  · rintro ⟨r, hr, hmatch⟩
    have hfirst := (h.fits_of_mem_regions hr).ordered
    exact ⟨r.first,
      (hcovered r.first).2 ⟨r, hr, r.isMatch_iff.1 hmatch, UInt64.le_refl _, hfirst⟩⟩

/-- Something is suspicious exactly when some peer shares a fingerprint. -/
theorem Valid.hasSuspicion_iff_exists_shared {l : Ledger} (h : l.Valid) :
    l.hasSuspicion = true ↔ ∃ peer, 0 < (l.shared peer).length := by
  simp only [hasSuspicion_iff, List.length_pos_iff_exists_mem, mem_shared_iff]
  constructor
  · rintro ⟨p, hp⟩
    obtain ⟨hit, hhit⟩ := mem_iff_exists_getElem?.1 hp
    obtain ⟨x, hx⟩ := h.located hhit
    exact ⟨x.peer, _, p, hit, hhit, (hit.names_iff x.peer).2 ⟨x, hx, rfl⟩, rfl⟩
  · rintro ⟨peer, f, p, hit, hhit, -⟩
    exact ⟨p, mem_iff_exists_getElem?.2 ⟨hit, hhit⟩⟩

end Ledger

/-! ## What a standing says -/

/-- The peer that a standing is about, if it is one of a ranking of peers. -/
def Standing.peer? (x : Standing) : Option Peer :=
  x.gradeable.map fun gradeable => ⟨x.student, x.version, gradeable⟩

@[simp] theorem Standing.peer?_standing (peer : Peer) (matched distinct : Nat) :
    (peer.standing matched distinct).peer? = some peer := rfl

namespace Ledger

/-- The ranking has one standing for each entry of the tally. -/
theorem rankPeers_perm (l : Ledger) :
    l.rankPeers.Perm (l.tally.matched.map fun entry =>
      entry.1.standing entry.2 l.submission.distinctCount) :=
  List.mergeSort_perm _ _

theorem mem_rankPeers_iff (l : Ledger) (x : Standing) :
    x ∈ l.rankPeers ↔ ∃ (peer : Peer) (n : Nat), (peer, n) ∈ l.tally.matched ∧
      x = peer.standing n l.submission.distinctCount := by
  rw [l.rankPeers_perm.mem_iff, List.mem_map, Prod.exists]
  simp only [eq_comm]

/-- A peer has a standing exactly when it is in the tally. -/
theorem exists_standing_iff (l : Ledger) (peer : Peer) :
    (∃ x ∈ l.rankPeers, x.peer? = some peer) ↔ ∃ n, (peer, n) ∈ l.tally.matched := by
  constructor
  · rintro ⟨x, hx, hpeer⟩
    obtain ⟨other, n, hn, rfl⟩ := (l.mem_rankPeers_iff x).1 hx
    rw [Standing.peer?_standing, Option.some_inj] at hpeer
    exact ⟨n, hpeer ▸ hn⟩
  · rintro ⟨n, hn⟩
    exact ⟨_, (l.mem_rankPeers_iff _).2 ⟨peer, n, hn, rfl⟩, rfl⟩

theorem nodup_peers_rankPeers (l : Ledger) : (l.rankPeers.map Standing.peer?).Nodup := by
  have hkeys : (l.rankPeers.map Standing.peer?).Perm (l.tally.keys.map some) := by
    refine (l.rankPeers_perm.map Standing.peer?).trans (.of_eq ?_)
    rw [← ExtTreeMap.map_fst_toList_eq_keys, Tally.matched, List.map_map, List.map_map,
      List.map_map]
    rfl
  exact hkeys.nodup_iff.2 (ExtTreeMap.nodup_keys.map fun _ _ => Option.some.inj)

/-- A peer is counted exactly when a region names it, with the different fingerprints that the
regions naming it cover. -/
theorem Counted.mem_matched_iff_exists_region {l : Ledger} (h : l.Counted) (hv : l.Valid)
    (hashSize cap : Nat) (peer : Peer) (n : Nat) :
    (peer, n) ∈ l.tally.matched ↔
      (∃ r ∈ l.regions hashSize cap, peer ∈ r.kind.peers) ∧
        n = (l.fingerprintsOf hashSize cap peer).length := by
  have hlength := (hv.fingerprintsOf_perm hashSize cap peer).length_eq
  rw [h.mem_matched_iff, hv.exists_region_iff, hlength]
  exact and_congr_left fun hn => by rw [hn]

/-- A peer has a standing exactly when a region names it. -/
theorem Counted.exists_standing_iff_exists_region {l : Ledger} (h : l.Counted) (hv : l.Valid)
    (hashSize cap : Nat) (peer : Peer) :
    (∃ x ∈ l.rankPeers, x.peer? = some peer) ↔
      ∃ r ∈ l.regions hashSize cap, peer ∈ r.kind.peers := by
  rw [exists_standing_iff]
  constructor
  · rintro ⟨n, hn⟩
    exact ((h.mem_matched_iff_exists_region hv hashSize cap peer n).1 hn).1
  · intro hr
    exact ⟨_, (h.mem_matched_iff_exists_region hv hashSize cap peer _).2 ⟨hr, rfl⟩⟩

/-- The ranking is empty exactly when nothing is suspicious. -/
theorem Counted.rankPeers_eq_nil_iff {l : Ledger} (h : l.Counted) (hv : l.Valid) :
    l.rankPeers = [] ↔ l.hasSuspicion = false := by
  have hmatched : l.rankPeers = [] ↔ l.tally.matched = [] := by
    rw [← List.length_eq_zero_iff, l.rankPeers_perm.length_eq, List.length_map,
      List.length_eq_zero_iff]
  rw [hmatched, ← Bool.not_eq_true, hv.hasSuspicion_iff_exists_shared, not_exists,
    List.eq_nil_iff_forall_not_mem, Prod.forall]
  refine forall_congr' fun peer => ⟨fun hnone hpos => ?_, fun hnone n hn => ?_⟩
  · exact hnone _ ((h.mem_matched_iff peer _).2 ⟨hpos, rfl⟩)
  · obtain ⟨hpos, rfl⟩ := (h.mem_matched_iff peer n).1 hn
    exact hnone hpos

/-- **Both reports agree.**  After every run, for every hash size and every cap, the ranking is
about exactly the peers that the regions name, and about each of them once.  A peer is counted with
the different fingerprints at the positions of the regions that name it, and its standing is made of
that count.  The ranking is empty exactly when there is no match, and exactly when nothing is
suspicious. -/
theorem rankPeers_agrees (s : Submission) (width : Nat) (marks : List Mark) (hashSize cap : Nat) :
    let l := (ofSubmission s width).recordAll marks
    (∀ peer, (∃ x ∈ l.rankPeers, x.peer? = some peer) ↔
        ∃ r ∈ l.regions hashSize cap, peer ∈ r.kind.peers) ∧
      (l.rankPeers.map Standing.peer?).Nodup ∧
      (∀ peer n, (peer, n) ∈ l.tally.matched ↔
        (∃ r ∈ l.regions hashSize cap, peer ∈ r.kind.peers) ∧
          n = (l.fingerprintsOf hashSize cap peer).length) ∧
      (∀ x ∈ l.rankPeers, ∃ peer : Peer,
        x = peer.standing (l.fingerprintsOf hashSize cap peer).length s.distinctCount) ∧
      (l.rankPeers = [] ↔ ¬ ∃ r ∈ l.regions hashSize cap, r.isMatch = true) ∧
      (l.rankPeers = [] ↔ l.hasSuspicion = false) := by
  intro l
  have hv : l.Valid := valid_recordAll s width marks
  have hc : l.Counted := counted_recordAll s width marks
  refine ⟨hc.exists_standing_iff_exists_region hv hashSize cap, l.nodup_peers_rankPeers,
    hc.mem_matched_iff_exists_region hv hashSize cap, fun x hx => ?_, ?_,
    hc.rankPeers_eq_nil_iff hv⟩
  · obtain ⟨peer, n, hn, rfl⟩ := (l.mem_rankPeers_iff x).1 hx
    obtain ⟨-, rfl⟩ := (hc.mem_matched_iff_exists_region hv hashSize cap peer n).1 hn
    rw [submission_recordAll]
    exact ⟨peer, rfl⟩
  · rw [hc.rankPeers_eq_nil_iff hv, ← hv.hasSuspicion_iff_exists_isMatch, Bool.not_eq_true]

end Ledger
end Resemblance
