import Mathlib.Data.List.Forall2
import Resemblance.Proofs.Region.OfLedger
import Resemblance.Proofs.Region.Pieces
import Resemblance.Proofs.Region.Runs

/-!
# The cap only changes how groups are shown

Merging compares groups one by one, and the cap decides how many there are.  Still no cap merges
two positions that another one keeps apart: the windows of a peer are cut at the same places
whenever there are equally many of them, so the groups continue each other exactly when the uncut
runs do.

## What is here

* `Group.perPeer` — the windows of each peer, neighbouring groups of one peer joined.
* `Kind.joined`, `Region.joined` — a region with its groups joined.  Growing commutes with this
  (`Kind.joined_grow`).
* `Kind.IsCut` — the groups are the joined ones, cut to pieces of one length.  For such kinds
  joining does not change what continues what (`Kind.IsCut.continuedBy_joined`), and so it commutes
  with merging (`Region.map_joined_merge`).
* `Ledger.regions_same_under_caps` — two caps make the same regions, up to the cuts.
-/

set_option autoImplicit false
namespace Resemblance

/-- The windows of each peer, those of neighbouring groups of one peer in one list. -/
def Group.perPeer (groups : List Group) : List (Peer × List Window) :=
  joinNeighbours (groups.map fun g => (g.peer, g.windows))

/-! ## Kinds with joined groups -/

namespace Kind

/-- A kind with one group for neighbouring groups of one peer. -/
def joined : Kind → Kind
  | .matched others => .matched ((Group.perPeer others).map fun run => ⟨run.1, run.2⟩)
  | kind => kind

/-- The peers of the groups, each with the ends of its windows. -/
def tails (k : Kind) : List (Peer × List Position) :=
  k.groups.map fun g => (g.peer, g.ends)

theorem tails_eq_iff (k l : Kind) : k.tails = l.tails ↔ k.peers = l.peers ∧ k.ends = l.ends :=
  map_pair_eq_iff _ _ _ _ l.groups k.groups

/-- What continues a kind is told by its type and its tails. -/
theorem continuedBy_iff_tails (before after : Kind) :
    before.continuedBy after = true ↔
      after.tag = before.tag ∧
        after.tails = before.tails.map fun run => (run.1, run.2.map (· + 1)) := by
  have htails : before.grow.tails = before.tails.map fun run => (run.1, run.2.map (· + 1)) := by
    rw [tails, groups_grow, tails, List.map_map, List.map_map]
    exact List.map_congr_left fun g _ => Prod.ext rfl g.ends_grow
  rw [continuedBy_iff, ← htails, tails_eq_iff, peers_grow, ends_grow]

theorem tag_joined (k : Kind) : k.joined.tag = k.tag := by
  cases k <;> rfl

/-- The groups of a joined kind are the peers with their windows. -/
theorem map_groups_joined (k : Kind) :
    k.joined.groups.map (fun g => (g.peer, g.windows)) = Group.perPeer k.groups := by
  cases k with
  | matched others => exact (List.map_map).trans (List.map_id _)
  | common => rfl
  | provided => rfl

theorem tails_eq_map (k : Kind) :
    k.tails = (k.groups.map fun g => (g.peer, g.windows)).map fun run =>
      (run.1, run.2.map Window.last) := by
  rw [tails, List.map_map]
  rfl

theorem tails_joined (k : Kind) : k.joined.tails = joinNeighbours k.tails := by
  rw [tails_eq_map, map_groups_joined, Group.perPeer, ← joinNeighbours_map, ← tails_eq_map]

theorem joined_grow (k : Kind) : k.grow.joined = k.joined.grow := by
  cases k with
  | matched others =>
    have hpairs : (others.map Group.grow).map (fun g => (g.peer, g.windows)) =
        (others.map fun g => (g.peer, g.windows)).map fun run =>
          (run.1, run.2.map Window.grow) := by
      rw [List.map_map, List.map_map]
      rfl
    rw [grow, joined, joined, grow, Group.perPeer, hpairs, joinNeighbours_map, List.map_map,
      List.map_map]
    rfl
  | common => rfl
  | provided => rfl

/-- The groups are those of the joined kind, cut to pieces of length `n`. -/
def IsCut (n : Nat) (k : Kind) : Prop :=
  k.tails = cutRuns n (joinNeighbours k.tails)

/-- **Whether cut groups continue each other is told by the uncut ones.** -/
theorem IsCut.continuedBy_joined {n : Nat} {before after : Kind} (hb : before.IsCut n)
    (ha : after.IsCut n) : before.joined.continuedBy after.joined = before.continuedBy after := by
  rw [Bool.eq_iff_iff, continuedBy_iff_tails, continuedBy_iff_tails, tag_joined, tag_joined,
    tails_joined, tails_joined]
  refine and_congr_right fun _ => ⟨fun h => ?_, fun h => ?_⟩
  · -- the same cuts on both sides
    rw [ha, h, cutRuns_map, ← hb]
  · rw [h, joinNeighbours_map]

end Kind

/-! ## Merging joined regions -/

namespace Region

/-- A region with one group for neighbouring groups of one peer. -/
def joined (r : Region) : Region :=
  { r with kind := r.kind.joined }

theorem joined_grow (r : Region) : r.grow.joined = r.joined.grow := by
  rw [joined, kind_grow, Kind.joined_grow]
  rfl

theorem continuedBy_joined {n : Nat} {a b : Region} (ha : a.kind.IsCut n) (hb : b.kind.IsCut n) :
    a.joined.continuedBy b.joined = a.continuedBy b := by
  rw [continuedBy, continuedBy, joined, joined, ha.continuedBy_joined hb]

/-- Regions that end alike still do when they are joined. -/
theorem EndsLike.joined {r b : Region} (h : r.EndsLike b) : r.joined.EndsLike b.joined := by
  have htails : r.kind.tails = b.kind.tails := (Kind.tails_eq_iff _ _).2 ⟨h.peers, h.ends⟩
  obtain ⟨hpeers, hends⟩ : r.kind.joined.peers = b.kind.joined.peers ∧
      r.kind.joined.ends = b.kind.joined.ends := by
    rw [← Kind.tails_eq_iff, Kind.tails_joined, Kind.tails_joined, htails]
  exact ⟨h.last, (Kind.tag_joined _).trans (h.tag.trans (Kind.tag_joined _).symm), hpeers, hends⟩

/-- An open region may be joined before what follows is merged into it.  It ends like `b`, whose
groups are cut as those of the regions that follow. -/
theorem map_joined_mergeInto {n : Nat} : ∀ (rs : List Region) {opened b : Region},
    opened.EndsLike b → b.kind.IsCut n → (∀ r ∈ rs, r.kind.IsCut n) →
      (mergeInto opened rs).map joined = mergeInto opened.joined (rs.map joined)
  | [], _, _, _, _, _ => rfl
  | c :: rs, opened, b, hends, hb, hrs => by
    obtain ⟨hc, hrest⟩ := List.forall_mem_cons.1 hrs
    have hcont : opened.joined.continuedBy c.joined = opened.continuedBy c := by
      rw [hends.joined.continuedBy_eq, continuedBy_joined hb hc, hends.continuedBy_eq]
    rw [List.map_cons, mergeInto, mergeInto, hcont]
    by_cases h : opened.continuedBy c = true
    · rw [if_pos h, if_pos h, map_joined_mergeInto rs (endsLike_grow h) hc hrest, joined_grow]
    · rw [if_neg h, if_neg h, List.map_cons, map_joined_mergeInto rs (.refl c) hc hrest]

/-- **Joining commutes with merging** when all groups are cut to one length. -/
theorem map_joined_merge {n : Nat} {rs : List Region} (h : ∀ r ∈ rs, r.kind.IsCut n) :
    (merge rs).map joined = merge (rs.map joined) := by
  cases rs with
  | nil => rfl
  | cons r rs =>
    obtain ⟨hr, hrs⟩ := List.forall_mem_cons.1 h
    exact map_joined_mergeInto rs (.refl r) hr hrs

end Region

/-! ## The regions of a ledger -/

/-- The groups of a run of locations have the same windows, whatever the cap. -/
theorem perPeer_ofLocations (hashSize cap : Nat) (ls : List Location) :
    Group.perPeer (Group.ofLocations hashSize cap ls) =
      (Location.byPeer ls).map fun run => (run.1, run.2.map (Window.ofPosition hashSize)) := by
  have hpairs : (Group.ofLocations hashSize cap ls).map (fun g => (g.peer, g.windows)) =
      (cutRuns cap (Location.byPeer ls)).map fun run =>
        (run.1, run.2.map (Window.ofPosition hashSize)) := by
    rw [ofLocations_eq_cutRuns, List.map_map]
    rfl
  rw [Group.perPeer, hpairs, joinNeighbours_map,
    joinNeighbours_cutRuns cap (isChain_byPeer ls) fun _ => ne_nil_of_mem_byPeer]

theorem isCut_matched_ofLocations (hashSize cap : Nat) (ls : List Location) :
    (Kind.matched (Group.ofLocations hashSize cap ls)).IsCut cap := by
  have htails : (Kind.matched (Group.ofLocations hashSize cap ls)).tails =
      (cutRuns cap (Location.byPeer ls)).map fun run =>
        (run.1, run.2.map fun p => (Window.ofPosition hashSize p).last) := by
    rw [Kind.tails, Kind.groups, ofLocations_eq_cutRuns, List.map_map]
    refine List.map_congr_left fun run _ => Prod.ext rfl ?_
    exact List.map_map
  rw [Kind.IsCut, htails, joinNeighbours_map,
    joinNeighbours_cutRuns cap (isChain_byPeer ls) (fun _ => ne_nil_of_mem_byPeer), cutRuns_map]

namespace Ledger

theorem isCut_of_mem_positionRegions {l : Ledger} {hashSize cap : Nat} {r : Region}
    (h : r ∈ l.positionRegions hashSize cap) : r.kind.IsCut cap := by
  rcases (mem_positionRegions_iff l hashSize cap r).1 h with
    ⟨p, hit, -, rfl⟩ | ⟨p, -, rfl⟩ | ⟨p, -, rfl⟩
  · exact isCut_matched_ofLocations hashSize cap _
  · rfl
  · rfl

/-- The regions of the positions are the same when they are joined. -/
theorem map_joined_positionRegions (l : Ledger) (hashSize cap cap' : Nat) :
    (l.positionRegions hashSize cap).map Region.joined =
      (l.positionRegions hashSize cap').map Region.joined := by
  have hsort : ∀ rs : List Region,
      (rs.mergeSort fun a b => a.first ≤ b.first).map Region.joined =
        (rs.map Region.joined).mergeSort fun a b => a.first ≤ b.first :=
    fun rs => List.map_mergeSort fun _ _ _ _ => rfl
  have hkind : ∀ ls : List Location,
      (Kind.matched (Group.ofLocations hashSize cap ls)).joined =
        (Kind.matched (Group.ofLocations hashSize cap' ls)).joined := by
    intro ls
    rw [Kind.joined, Kind.joined, perPeer_ofLocations, perPeer_ofLocations]
  rw [positionRegions, positionRegions, hsort, hsort]
  simp only [List.map_append, List.map_map, Function.comp_def, Region.joined, Region.single, hkind]

theorem map_joined_regions (l : Ledger) (hashSize cap cap' : Nat) :
    (l.regions hashSize cap).map Region.joined = (l.regions hashSize cap').map Region.joined := by
  rw [regions, regions, Region.map_joined_merge fun _ => isCut_of_mem_positionRegions,
    Region.map_joined_merge fun _ => isCut_of_mem_positionRegions,
    map_joined_positionRegions l hashSize cap cap']

/-- **The cap only changes how groups are shown.**  For every ledger, every hash size and any two
caps there are the same regions, with the same ends and types; and when neighbouring groups of one
peer are joined, each region has the same peers with the same windows. -/
theorem regions_same_under_caps (l : Ledger) (hashSize cap cap' : Nat) :
    List.Forall₂
      (fun q r => q.first = r.first ∧ q.last = r.last ∧ q.kind.tag = r.kind.tag ∧
        Group.perPeer q.kind.groups = Group.perPeer r.kind.groups)
      (l.regions hashSize cap) (l.regions hashSize cap') := by
  have hjoined : List.Forall₂ (· = ·) ((l.regions hashSize cap).map Region.joined)
      ((l.regions hashSize cap').map Region.joined) := by
    rw [List.forall₂_eq_eq_eq]
    exact map_joined_regions l hashSize cap cap'
  rw [List.forall₂_map_left_iff, List.forall₂_map_right_iff] at hjoined
  refine hjoined.imp fun q r hqr => ?_
  have hfirst : q.joined.first = r.joined.first := congrArg Region.first hqr
  have hlast : q.joined.last = r.joined.last := congrArg Region.last hqr
  have hkind : q.kind.joined = r.kind.joined := congrArg Region.kind hqr
  refine ⟨hfirst, hlast, ?_, ?_⟩
  · rw [← Kind.tag_joined q.kind, hkind, Kind.tag_joined]
  · rw [← Kind.map_groups_joined, hkind, Kind.map_groups_joined]

end Ledger
end Resemblance
