import Resemblance.Ledger
import Resemblance.Notice
import Resemblance.Region.Merge

/-!
# The regions of a ledger

Every marked position of a ledger is a region of its own.  The locations of a suspicious position
are grouped by peer, and a group that is full is followed by another one of the same peer.  The
regions of the submission are these, merged.

## What is here

* `Location.byPeer` — the runs of locations of one peer.
* `chunks` — a list cut into pieces of a given length, the last of which may be shorter.
* `Group.ofLocations` — the groups of a suspicious position.
* `Ledger.positionRegions`, `Ledger.regions` — the regions before and after merging.
* `Ledger.fullGroups` — the notices about full groups.
-/

set_option autoImplicit false
namespace Resemblance

/-! ## Grouping -/

/-- Runs of locations of one peer, as the peer with the positions.  In a sorted list every peer has
one run. -/
def Location.byPeer : List Location → List (Peer × List Position)
  | [] => []
  | l :: ls =>
    match byPeer ls with
    | [] => [(l.peer, [l.position])]
    | (peer, positions) :: rest =>
      if l.peer = peer then (peer, l.position :: positions) :: rest
      else (l.peer, [l.position]) :: (peer, positions) :: rest

/-- A list in pieces of length `n`, the last one possibly shorter.  Zero counts as one. -/
def chunks {α : Type} (n : Nat) : List α → List (List α)
  | [] => []
  | x :: xs => (x :: xs.take (n - 1)) :: chunks n (xs.drop (n - 1))
termination_by xs => xs.length
decreasing_by simp only [List.length_drop, List.length_cons]; omega

/-- The window of tokens behind the fingerprint at a position.  Its end is a sum of positions, which
wraps around. -/
def Window.ofPosition (hashSize : Nat) (position : Position) : Window :=
  ⟨position, position + UInt64.ofNat (hashSize - 1)⟩

/-- The groups of a sorted list of locations.  No group has more than `cap` windows. -/
def Group.ofLocations (hashSize cap : Nat) (locations : List Location) : List Group :=
  (Location.byPeer locations).flatMap fun run =>
    (chunks cap run.2).map fun piece => ⟨run.1, piece.map (Window.ofPosition hashSize)⟩

namespace Ledger

/-! ## Regions -/

/-- One region for each marked position, in ascending order. -/
def positionRegions (l : Ledger) (hashSize cap : Nat) : List Region :=
  let suspicious := l.suspicious.toList.map fun entry =>
    Region.single entry.1 (.matched (Group.ofLocations hashSize cap entry.2.locations.toList))
  let common := l.common.toList.map (Region.single · .common)
  let provided := l.provided.toList.map (Region.single · .provided)
  (suspicious ++ common ++ provided).mergeSort fun a b => a.first ≤ b.first

/-- The regions of the submission. -/
def regions (l : Ledger) (hashSize cap : Nat) : List Region :=
  Region.merge (l.positionRegions hashSize cap)

/-! ## Full groups -/

/-- One notice for each group that was begun because the one before it was full. -/
def fullGroups (l : Ledger) (cap : Nat) : List Notice :=
  l.suspicious.toList.flatMap fun entry =>
    (Location.byPeer entry.2.locations.toList).flatMap fun run =>
      List.replicate ((chunks cap run.2).length - 1)
        (.groupFull l.submission.student l.submission.version entry.1 (max cap 1) run.1)

end Ledger
end Resemblance
