import Mathlib.Data.List.Dedup
import Resemblance.Proofs.Region.OfLedger
import Resemblance.Proofs.Region.Pieces

/-!
# Groups under a cap

The groups of a suspicious position can be made in one pass over its locations: only the last group
is looked at, to see whether it is of the peer of the next location and has room for it.  That this
never parts the locations of a peer rests on their order, in which the locations of one peer are
neighbours.

## What is here

* `Group.fill`, `Group.fillAll` — the pass, with the peers whose last group was full when another
  location came.  It makes the runs of the locations, cut at the cap (`Group.fillAll_eq`).
* `pairwise_byPeer` — sorted locations have one run for each peer, in order.
* `Group.Divides` — what groups under a cap are, and `Group.divides_ofLocations`.
* `Ledger.noticesAt` — what is logged about full groups at a position.
* `Ledger.groups_under_cap` — all of it, for every suspicious position that a run leads to.
-/

set_option autoImplicit false
namespace Resemblance

open Std

/-! ## One pass over the locations -/

/-- The peers of runs, each as often as another group is begun because the one before it is full. -/
def fullPeers (cap : Nat) (runs : List (Peer × List Position)) : List Peer :=
  runs.flatMap fun run => List.replicate ((chunks cap run.2).length - 1) run.1

namespace Group

/-- Goes on with an open group: a location of its peer goes into it as long as there is room, and
any other location begins a new group.  Tells the groups, and the peers of the locations that found
no room in a group of their own. -/
def fill (hashSize cap : Nat) (opened : Group) : List Location → List Group × List Peer
  | [] => ([opened], [])
  | x :: xs =>
    let window := Window.ofPosition hashSize x.position
    if opened.peer = x.peer ∧ opened.windows.length < max cap 1 then
      fill hashSize cap { opened with windows := opened.windows ++ [window] } xs
    else
      let rest := fill hashSize cap ⟨x.peer, [window]⟩ xs
      (opened :: rest.1, if opened.peer = x.peer then x.peer :: rest.2 else rest.2)

/-- The groups of locations in one pass, and the peers of the locations that found no room. -/
def fillAll (hashSize cap : Nat) : List Location → List Group × List Peer
  | [] => ([], [])
  | x :: xs => fill hashSize cap ⟨x.peer, [Window.ofPosition hashSize x.position]⟩ xs

/-- The groups of runs under a cap. -/
def ofRuns (hashSize cap : Nat) (runs : List (Peer × List Position)) : List Group :=
  (cutRuns cap runs).map (ofRun hashSize)

variable {hashSize cap : Nat} {peer : Peer} {ps qs : List Position}

/-- A run that is not too long is one group. -/
theorem ofRuns_cons_of_length_le (hashSize : Nat) (peer : Peer) (runs : List (Peer × List Position))
    (hne : ps ≠ []) (h : ps.length ≤ max cap 1) :
    ofRuns hashSize cap ((peer, ps) :: runs) =
        ofRun hashSize (peer, ps) :: ofRuns hashSize cap runs ∧
      fullPeers cap ((peer, ps) :: runs) = fullPeers cap runs := by
  simp [ofRuns, cutRuns, fullPeers, chunks_of_length_le hne h]

/-- A run that begins with a full group. -/
theorem ofRuns_cons_of_length_eq (hashSize : Nat) (peer : Peer) (runs : List (Peer × List Position))
    (h : ps.length = max cap 1) (hne : qs ≠ []) :
    ofRuns hashSize cap ((peer, ps ++ qs) :: runs) =
        ofRun hashSize (peer, ps) :: ofRuns hashSize cap ((peer, qs) :: runs) ∧
      fullPeers cap ((peer, ps ++ qs) :: runs) =
        peer :: fullPeers cap ((peer, qs) :: runs) := by
  have hpos : 0 < (chunks cap qs).length := List.length_pos_of_ne_nil (chunks_ne_nil hne)
  have hcount : (chunks cap qs).length + 1 - 1 = (chunks cap qs).length - 1 + 1 := by omega
  simp [ofRuns, cutRuns, fullPeers, chunks_append_of_length h, hcount, List.replicate_succ]

/-- A location goes into a group of its peer that has room. -/
theorem fill_of_room {position : Position} {ls : List Location} (h : ps.length < max cap 1) :
    fill hashSize cap (ofRun hashSize (peer, ps)) (⟨peer, position⟩ :: ls) =
      fill hashSize cap (ofRun hashSize (peer, ps ++ [position])) ls := by
  have hroom : (ofRun hashSize (peer, ps)).windows.length < max cap 1 := by
    rwa [ofRun, List.length_map]
  have hgrown : { ofRun hashSize (peer, ps) with
      windows := (ofRun hashSize (peer, ps)).windows ++ [Window.ofPosition hashSize position] } =
        ofRun hashSize (peer, ps ++ [position]) := by
    rw [ofRun, ofRun, List.map_append, List.map_singleton]
  rw [fill, ← hgrown]
  exact if_pos ⟨rfl, hroom⟩

/-- A location begins a new group after a full one of its peer. -/
theorem fill_of_full {position : Position} {ls : List Location} (h : ¬ ps.length < max cap 1) :
    fill hashSize cap (ofRun hashSize (peer, ps)) (⟨peer, position⟩ :: ls) =
      (ofRun hashSize (peer, ps) ::
          (fill hashSize cap (ofRun hashSize (peer, [position])) ls).1,
        peer :: (fill hashSize cap (ofRun hashSize (peer, [position])) ls).2) := by
  have hfull : ¬ (ofRun hashSize (peer, ps)).windows.length < max cap 1 := by
    rwa [ofRun, List.length_map]
  rw [fill, if_neg fun h => hfull h.2]
  exact Prod.ext rfl (if_pos rfl)

/-- A location begins a new group after one of another peer. -/
theorem fill_of_ne {position : Position} {ls : List Location} {other : Peer} (h : peer ≠ other) :
    fill hashSize cap (ofRun hashSize (peer, ps)) (⟨other, position⟩ :: ls) =
      (ofRun hashSize (peer, ps) ::
          (fill hashSize cap (ofRun hashSize (other, [position])) ls).1,
        (fill hashSize cap (ofRun hashSize (other, [position])) ls).2) := by
  have hne : (ofRun hashSize (peer, ps)).peer ≠ other := h
  rw [fill, if_neg fun h => hne h.1]
  exact Prod.ext rfl (if_neg hne)

/-- **Filling groups cuts runs at the cap.**  An open group stands for a run that has begun and is
not too long. -/
theorem fill_eq (ls : List Location) : ∀ (peer : Peer) {ps : List Position}, ps ≠ [] →
    ps.length ≤ max cap 1 →
      fill hashSize cap (ofRun hashSize (peer, ps)) ls =
        (ofRuns hashSize cap
            (joinNeighbours ((peer, ps) :: ls.map fun x => (x.peer, [x.position]))),
          fullPeers cap
            (joinNeighbours ((peer, ps) :: ls.map fun x => (x.peer, [x.position])))) := by
  induction ls with
  | nil =>
    intro peer ps hne hle
    have hrun : joinNeighbours [(peer, ps)] = [(peer, ps)] := rfl
    obtain ⟨hgroups, hpeers⟩ := ofRuns_cons_of_length_le hashSize peer [] hne hle
    rw [List.map_nil, hrun, hgroups, hpeers]
    rfl
  | cons x xs ih =>
    intro peer ps hne hle
    obtain ⟨other, position⟩ := x
    have hnew := ih other (List.cons_ne_nil position [])
      (by rw [List.length_singleton]; omega)
    rw [List.map_cons]
    by_cases hpeer : peer = other
    · subst hpeer
      by_cases hroom : ps.length < max cap 1
      · -- the run goes on in the open group
        rw [fill_of_room hroom, joinNeighbours_cons_cons_self]
        refine ih peer (List.append_ne_nil_of_left_ne_nil hne _) ?_
        rw [List.length_append, List.length_singleton]
        omega
      · -- the run goes on in a group of its own
        have hfull : ps.length = max cap 1 := by omega
        obtain ⟨qs, more, hjoin⟩ := exists_joinNeighbours_cons peer [position]
          (xs.map fun x => (x.peer, [x.position]))
        obtain ⟨hgroups, hpeers⟩ := ofRuns_cons_of_length_eq hashSize peer more hfull
          (List.append_ne_nil_of_left_ne_nil (List.cons_ne_nil position []) qs)
        rw [hjoin] at hnew
        rw [fill_of_full hroom, hnew, joinNeighbours_cons_of_eq hjoin, hgroups, hpeers]
    · -- a run of another peer begins
      rw [fill_of_ne hpeer, hnew, joinNeighbours_cons_cons_of_ne hpeer]
      obtain ⟨hgroups, hpeers⟩ := ofRuns_cons_of_length_le hashSize peer
        (joinNeighbours ((other, [position]) :: xs.map fun x => (x.peer, [x.position]))) hne hle
      rw [hgroups, hpeers]

/-- **One pass over the locations makes their groups**, and meets a full group as often as another
one has to be begun for its peer. -/
theorem fillAll_eq (hashSize cap : Nat) (ls : List Location) :
    fillAll hashSize cap ls =
      (ofLocations hashSize cap ls, fullPeers cap (Location.byPeer ls)) := by
  rw [ofLocations_eq_cutRuns, byPeer_eq_joinNeighbours]
  cases ls with
  | nil => rfl
  | cons x xs =>
    exact fill_eq xs x.peer (List.cons_ne_nil x.position []) (by rw [List.length_singleton]; omega)

end Group

/-! ## Sorted locations -/

theorem exists_of_mem_byPeer {ls : List Location} {run : Peer × List Position}
    (h : run ∈ Location.byPeer ls) : ∃ x ∈ ls, x.peer = run.1 := by
  obtain ⟨p, hp⟩ := List.exists_mem_of_ne_nil _ (ne_nil_of_mem_byPeer h)
  refine ⟨⟨run.1, p⟩, ?_, rfl⟩
  rw [← flatMap_byPeer ls]
  exact List.mem_flatMap.2 ⟨run, h, List.mem_map.2 ⟨p, hp, rfl⟩⟩

theorem exists_run_of_mem {ls : List Location} {x : Location} (h : x ∈ ls) :
    ∃ run ∈ Location.byPeer ls, run.1 = x.peer := by
  rw [← flatMap_byPeer ls] at h
  obtain ⟨run, hrun, hx⟩ := List.mem_flatMap.1 h
  obtain ⟨p, -, rfl⟩ := List.mem_map.1 hx
  exact ⟨run, hrun, rfl⟩

/-- Locations in order have peers in order. -/
theorem Location.isLE_peer_of_lt {x y : Location} (h : compare x y = .lt) :
    (compare x.peer y.peer).isLE = true := by
  have hthen : (compare x.peer y.peer).then (compare x.position y.position) = .lt := h
  exact Ordering.isLE_left_of_isLE_then (by rw [hthen]; rfl)

theorem Peer.lt_of_isLE_of_ne {a b : Peer} (h : (compare a b).isLE = true) (hne : a ≠ b) :
    compare a b = .lt := by
  rcases Ordering.isLE_iff_eq_lt_or_eq_eq.1 h with hlt | heq
  · exact hlt
  · exact absurd (LawfulEqOrd.eq_of_compare heq) hne

theorem Peer.ne_of_lt {a b : Peer} (h : compare a b = .lt) : a ≠ b := by
  rintro rfl
  rw [compare_self] at h
  exact absurd h (by decide)

/-- **Sorted locations have one run for each peer, in order.** -/
theorem pairwise_byPeer {ls : List Location} (h : ls.Pairwise fun a b => compare a b = .lt) :
    (Location.byPeer ls).Pairwise fun a b => compare a.1 b.1 = .lt := by
  induction ls with
  | nil => exact List.Pairwise.nil
  | cons l ls ih =>
    obtain ⟨hl, hls⟩ := List.pairwise_cons.1 h
    have ih := ih hls
    rw [Location.byPeer]
    rcases hruns : Location.byPeer ls with - | ⟨⟨peer, positions⟩, rest⟩
    · exact List.pairwise_singleton _ _
    · rw [hruns] at ih
      obtain ⟨hfirst, hrest⟩ := List.pairwise_cons.1 ih
      by_cases hpeer : l.peer = peer
      · simp only [hpeer, if_true]
        exact List.pairwise_cons.2 ⟨hfirst, hrest⟩
      · simp only [hpeer, if_false]
        obtain ⟨x, hx, rfl⟩ := exists_of_mem_byPeer (hruns ▸ List.mem_cons_self)
        have hlt := Peer.lt_of_isLE_of_ne (Location.isLE_peer_of_lt (hl x hx)) hpeer
        refine List.pairwise_cons.2 ⟨List.forall_mem_cons.2 ⟨hlt, fun run hrun => ?_⟩, ih⟩
        exact TransCmp.lt_trans hlt (hfirst run hrun)

/-- Sorted locations have as many runs as peers. -/
theorem length_byPeer {ls : List Location} (h : ls.Pairwise fun a b => compare a b = .lt) :
    (Location.byPeer ls).length = (ls.map Location.peer).dedup.length := by
  have hnodup : ((Location.byPeer ls).map Prod.fst).Nodup :=
    List.pairwise_map.2 ((pairwise_byPeer h).imp fun hlt => Peer.ne_of_lt hlt)
  have hperm : ((Location.byPeer ls).map Prod.fst).Perm (ls.map Location.peer).dedup := by
    refine (List.perm_ext_iff_of_nodup hnodup (List.nodup_dedup _)).2 fun peer => ?_
    rw [List.mem_dedup, List.mem_map, List.mem_map]
    constructor
    · rintro ⟨run, hrun, rfl⟩
      exact exists_of_mem_byPeer hrun
    · rintro ⟨x, hx, rfl⟩
      exact exists_run_of_mem hx
  rw [← hperm.length_eq, List.length_map]

/-! ## What the groups are -/

/-- What the groups of locations under a cap are. -/
structure Group.Divides (hashSize cap : Nat) (ls : List Location) (groups : List Group) :
    Prop where
  windows_ne_nil : ∀ g ∈ groups, g.windows ≠ []
  /-- Read in order, the groups are the locations, each as the window of its position. -/
  flatMap_eq : (groups.flatMap fun g => g.windows.map fun w => (g.peer, w)) =
    ls.map fun x => (x.peer, ⟨x.position, x.position + UInt64.ofNat (max hashSize 1 - 1)⟩)
  ascending : groups.Pairwise fun g h => (compare g.peer h.peer).isLE = true
  capped : ∀ g ∈ groups, g.windows.length ≤ max cap 1
  /-- A group that another one of its peer follows is full. -/
  full : groups.Pairwise fun g h => g.peer = h.peer → g.windows.length = max cap 1

/-- Sorted locations are divided by their groups. -/
theorem Group.divides_ofLocations (hashSize cap : Nat) {ls : List Location}
    (h : ls.Pairwise fun a b => compare a b = .lt) :
    Group.Divides hashSize cap ls (Group.ofLocations hashSize cap ls) where
  windows_ne_nil _ := windows_ne_nil_of_mem_ofLocations
  flatMap_eq := by
    have hwidth : max hashSize 1 - 1 = hashSize - 1 := by omega
    have hwindow : ∀ p, Window.ofPosition hashSize p =
        ⟨p, p + UInt64.ofNat (max hashSize 1 - 1)⟩ := by
      intro p
      rw [Window.ofPosition, hwidth]
    rw [flatMap_ofLocations]
    exact List.map_congr_left fun x _ => by rw [hwindow]
  ascending := by
    refine List.pairwise_flatMap.2 ⟨fun run _ => ?_, (pairwise_byPeer h).imp fun hlt => ?_⟩
    · exact List.pairwise_map.2 (List.pairwise_of_forall fun _ _ => ReflCmp.isLE_rfl)
    · intro g hg g' hg'
      obtain ⟨_, -, rfl⟩ := List.mem_map.1 hg
      obtain ⟨_, -, rfl⟩ := List.mem_map.1 hg'
      rw [hlt]
      rfl
  capped g hg := by
    obtain ⟨run, -, hg⟩ := List.mem_flatMap.1 hg
    obtain ⟨piece, hpiece, rfl⟩ := List.mem_map.1 hg
    rw [List.length_map]
    exact length_le_of_mem_chunks hpiece
  full := by
    refine List.pairwise_flatMap.2 ⟨fun run _ => ?_, (pairwise_byPeer h).imp fun hlt => ?_⟩
    · refine List.pairwise_map.2 ((pairwise_chunks cap run.2).imp fun hlength _ => ?_)
      rw [List.length_map, hlength]
    · -- groups of two runs are of different peers
      intro g hg g' hg' heq
      obtain ⟨_, -, rfl⟩ := List.mem_map.1 hg
      obtain ⟨_, -, rfl⟩ := List.mem_map.1 hg'
      exact absurd heq (Peer.ne_of_lt hlt)

/-- Every run has one group more than the full ones it has met. -/
theorem length_fullPeers_add {cap : Nat} {runs : List (Peer × List Position)}
    (h : ∀ run ∈ runs, run.2 ≠ []) :
    (fullPeers cap runs).length + runs.length = (cutRuns cap runs).length := by
  induction runs with
  | nil => rfl
  | cons run runs ih =>
    obtain ⟨hrun, hruns⟩ := List.forall_mem_cons.1 h
    have ih := ih hruns
    rw [fullPeers, cutRuns] at ih
    have hpos : 0 < (chunks cap run.2).length := List.length_pos_of_ne_nil (chunks_ne_nil hrun)
    rw [fullPeers, cutRuns, List.flatMap_cons, List.flatMap_cons, List.length_append,
      List.length_append, List.length_replicate, List.length_map, List.length_cons]
    omega

/-! ## Suspicious positions -/

/-- Whether a notice is about a full group at a position. -/
def Notice.isFullAt (p : Position) : Notice → Bool
  | .groupFull _ _ position _ _ => position == p
  | _ => false

namespace Ledger

/-- What is logged about full groups at a position. -/
def noticesAt (l : Ledger) (cap : Nat) (p : Position) : List Notice :=
  (l.fullGroups cap).filter (Notice.isFullAt p)

/-- The notice about a full group. -/
def fullNotice (l : Ledger) (cap : Nat) (p : Position) (peer : Peer) : Notice :=
  .groupFull l.submission.student l.submission.version p (max cap 1) peer

theorem fullGroups_eq (l : Ledger) (cap : Nat) :
    l.fullGroups cap = l.suspicious.toList.flatMap fun entry =>
      (fullPeers cap (Location.byPeer entry.2.locations.toList)).map
        (l.fullNotice cap entry.1) := by
  simp only [fullGroups, fullPeers, List.map_flatMap, List.map_replicate, fullNotice]

/-- The notices of a position are told by its own locations. -/
theorem noticesAt_eq {l : Ledger} {p : Position} {hit : Hit} (h : l.suspicious[p]? = some hit)
    (cap : Nat) :
    l.noticesAt cap p =
      (fullPeers cap (Location.byPeer hit.locations.toList)).map (l.fullNotice cap p) := by
  have hentry : ∀ entry : Position × Hit,
      ((fullPeers cap (Location.byPeer entry.2.locations.toList)).map
        (l.fullNotice cap entry.1)).filter (Notice.isFullAt p) =
        if entry.1 = p then (fullPeers cap (Location.byPeer entry.2.locations.toList)).map
          (l.fullNotice cap p) else [] := by
    intro entry
    by_cases hp : entry.1 = p
    · rw [if_pos hp, hp, List.filter_eq_self]
      intro notice hnotice
      obtain ⟨peer, -, rfl⟩ := List.mem_map.1 hnotice
      exact beq_self_eq_true p
    · rw [if_neg hp, List.filter_eq_nil_iff]
      intro notice hnotice
      obtain ⟨peer, -, rfl⟩ := List.mem_map.1 hnotice
      rw [fullNotice, Notice.isFullAt, beq_iff_eq]
      exact hp
  obtain ⟨before, after, hsplit⟩ := List.append_of_mem
    (ExtTreeMap.mem_toList_iff_getElem?_eq_some.2 h)
  -- no other entry is of this position
  have hkeys : (l.suspicious.toList.map Prod.fst).Nodup := by
    rw [ExtTreeMap.map_fst_toList_eq_keys]
    exact ExtTreeMap.nodup_keys
  rw [hsplit, List.map_append, List.map_cons, List.nodup_append, List.nodup_cons] at hkeys
  obtain ⟨-, ⟨hafter, -⟩, hbefore⟩ := hkeys
  have hnone : ∀ entries : List (Position × Hit), p ∉ entries.map Prod.fst →
      (entries.flatMap fun entry => if entry.1 = p then
        (fullPeers cap (Location.byPeer entry.2.locations.toList)).map (l.fullNotice cap p)
        else []) = [] := by
    intro entries hp
    rw [List.flatMap_eq_nil_iff]
    intro entry hentry
    refine if_neg fun heq : entry.1 = p => hp ?_
    rw [← heq]
    exact List.mem_map.2 ⟨entry, hentry, rfl⟩
  rw [noticesAt, fullGroups_eq, List.filter_flatMap]
  simp only [hentry]
  rw [hsplit, List.flatMap_append, List.flatMap_cons, if_pos rfl, hnone after hafter,
    hnone before fun hp => hbefore p hp p List.mem_cons_self rfl, List.nil_append, List.append_nil]

/-- The groups of a suspicious position under a cap, and what is logged about them. -/
structure GroupedAt (l : Ledger) (hashSize cap : Nat) (p : Position) (hit : Hit)
    (others : List Group) : Prop where
  /-- They are the groups of the region of the position, the only one there is. -/
  built : ∀ kind, .single p kind ∈ l.positionRegions hashSize cap ↔ kind = .matched others
  /-- The locations are sorted, and none is there twice. -/
  sorted : hit.locations.toList.Pairwise fun a b => compare a b = .lt
  divides : Group.Divides hashSize cap hit.locations.toList others
  /-- One pass over the locations makes them. -/
  filled : (Group.fillAll hashSize cap hit.locations.toList).1 = others
  /-- A notice is logged for each location that finds no room in a group of its own. -/
  notices : l.noticesAt cap p =
    (Group.fillAll hashSize cap hit.locations.toList).2.map (l.fullNotice cap p)
  /-- There are as many notices as groups less the different peers. -/
  count : (l.noticesAt cap p).length + (hit.locations.toList.map Location.peer).dedup.length =
    others.length

/-- **The groups of a suspicious position under a cap.**  After every run, for every hash size and
every cap, zero counting as one. -/
theorem groups_under_cap (s : Submission) (width : Nat) (marks : List Mark) (hashSize cap : Nat)
    {p : Position} {hit : Hit}
    (h : ((ofSubmission s width).recordAll marks).suspicious[p]? = some hit) :
    ((ofSubmission s width).recordAll marks).GroupedAt hashSize cap p hit
      (Group.ofLocations hashSize cap hit.locations.toList) where
  built kind := by
    have hvalid := valid_recordAll s width marks
    obtain ⟨hcommon, hprovided⟩ := hvalid.unmarked_of_mem (mem_iff_exists_getElem?.2 ⟨hit, h⟩)
    rw [mem_positionRegions_iff]
    constructor
    · rintro (⟨q, hit', hq, heq⟩ | ⟨q, hq, heq⟩ | ⟨q, hq, heq⟩)
      · obtain ⟨rfl, -, rfl⟩ := Region.mk.inj heq
        obtain rfl : hit = hit' := Option.some.inj (h.symm.trans hq)
        rfl
      · obtain ⟨rfl, -, -⟩ := Region.mk.inj heq
        exact absurd hq hcommon
      · obtain ⟨rfl, -, -⟩ := Region.mk.inj heq
        exact absurd hq hprovided
    · rintro rfl
      exact .inl ⟨p, hit, h, rfl⟩
  sorted := ExtTreeSet.ordered_toList
  divides := Group.divides_ofLocations hashSize cap ExtTreeSet.ordered_toList
  filled := by rw [Group.fillAll_eq]
  notices := by rw [Group.fillAll_eq, noticesAt_eq h]
  count := by
    rw [noticesAt_eq h, List.length_map, ← length_byPeer ExtTreeSet.ordered_toList,
      length_fullPeers_add fun _ => ne_nil_of_mem_byPeer, ofLocations_eq_cutRuns, List.length_map]

/-- Three locations of one peer around one of another, marked out of order. -/
theorem groups_under_cap_flushed :
    let marks := [Mark.suspicious 1 ⟨⟨"carol", 2, "hw"⟩, 4⟩, .suspicious 1 ⟨⟨"bob", 1, "hw"⟩, 5⟩,
      .suspicious 1 ⟨⟨"bob", 1, "hw"⟩, 1⟩, .suspicious 1 ⟨⟨"bob", 1, "hw"⟩, 3⟩]
    let l := (ofSubmission ⟨"alice", 1, #[15]⟩ 1).recordAll marks
    ∃ hit, l.suspicious[(1 : Position)]? = some hit ∧
      l.GroupedAt 1 2 1 hit (Group.ofLocations 1 2 hit.locations.toList) ∧
      Group.ofLocations 1 2 hit.locations.toList =
        [⟨⟨"bob", 1, "hw"⟩, [⟨1, 1⟩, ⟨3, 3⟩]⟩, ⟨⟨"bob", 1, "hw"⟩, [⟨5, 5⟩]⟩,
          ⟨⟨"carol", 2, "hw"⟩, [⟨4, 4⟩]⟩] := by
  intro marks l
  obtain ⟨hit, h, hgroups⟩ := Option.map_eq_some_iff.1
    (show l.suspicious[(1 : Position)]?.map
        (fun hit => Group.ofLocations 1 2 hit.locations.toList) =
        some [⟨⟨"bob", 1, "hw"⟩, [⟨1, 1⟩, ⟨3, 3⟩]⟩, ⟨⟨"bob", 1, "hw"⟩, [⟨5, 5⟩]⟩,
          ⟨⟨"carol", 2, "hw"⟩, [⟨4, 4⟩]⟩] by decide +kernel)
  exact ⟨hit, h, groups_under_cap ⟨"alice", 1, #[15]⟩ 1 marks 1 2 h, hgroups⟩

end Ledger
end Resemblance
