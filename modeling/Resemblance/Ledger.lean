import Resemblance.Submission
import Resemblance.Tally

/-!
# The ledger of a submission

While a submission is compared, its positions are marked: as code the instructor *provided*, as
*common* to many students, or as *suspicious* because some other submission has the same
fingerprint.  A fingerprint stands for a window of `width` tokens, so a position speaks for the
tokens of the `width - 1` positions after it as well.  Provided and common windows clear the
suspicion of every position whose window reaches into them from the left, and no position whose
window starts inside one becomes suspicious.

## What is here

* `Ledger` — a submission with the marks its positions carry now and the tally of its peers.
* `Ledger.reaching` — the positions whose windows reach a given position from the left.
* `Ledger.admits` — whether a position may become suspicious.
* `Mark`, `Ledger.record` and `Ledger.recordAll` — one mark, and a list of marks in order.

A position carries at most one of the three marks.  A provided position stays provided; a common
one can only become provided; a suspicious one may become any of the two.
-/

set_option autoImplicit false
namespace Resemblance

open Std

/-! ## What a ledger holds -/

/-- What makes a position suspicious: its fingerprint and the places that share it. -/
structure Hit where
  fingerprint : Fingerprint
  locations : ExtTreeSet Location

namespace Hit

/-- Whether a location of this peer is among the places.  The locations of one peer are neighbours,
so the first one that does not come before them all decides. -/
def names (h : Hit) (peer : Peer) : Bool :=
  (h.locations.toList.find? fun l => (compare ⟨peer, 0⟩ l).isLE).any fun l => l.peer == peer

/-- One more place; one that is there already changes nothing. -/
def add (h : Hit) (location : Location) : Hit :=
  { h with locations := h.locations.insert location }

/-- The peers of the places, each once and in order. -/
def peers (h : Hit) : List Peer :=
  (ExtTreeSet.ofList (h.locations.toList.map Location.peer) compare).toList

theorem names_iff (h : Hit) (peer : Peer) :
    h.names peer = true ↔ ∃ l ∈ h.locations, l.peer = peer := by
  simp only [names, Option.any_eq_true, beq_iff_eq]
  constructor
  · rintro ⟨l, found, same⟩
    exact ⟨l, ExtTreeSet.mem_toList.1 (List.mem_of_find?_eq_some found), same⟩
  · rintro ⟨l, mem, rfl⟩
    have least : (compare (⟨l.peer, 0⟩ : Location) l).isLE = true := Location.isLE_first l
    cases found : h.locations.toList.find? fun x => (compare (⟨l.peer, 0⟩ : Location) x).isLE with
    | none => simpa [least] using List.find?_eq_none.1 found l (ExtTreeSet.mem_toList.2 mem)
    | some x =>
      -- `x` stands between the least location of the peer and `l`
      have above := List.find?_some found
      refine ⟨x, rfl, Location.peer_eq_of_between above ?_⟩
      obtain ⟨-, before, after, split, smaller⟩ := List.find?_eq_some_iff_append.1 found
      have sorted := ExtTreeSet.ordered_toList (t := h.locations)
      have place := ExtTreeSet.mem_toList.2 mem
      rw [split] at sorted place
      rcases List.mem_append.1 place with early | late
      · simpa [least] using smaller l early
      · rcases List.mem_cons.1 late with rfl | later
        · exact ReflCmp.isLE_rfl
        · have := (List.pairwise_cons.1 (List.pairwise_append.1 sorted).2.1).1 l later
          rw [this]
          rfl

theorem mem_peers_iff (h : Hit) (peer : Peer) :
    peer ∈ h.peers ↔ ∃ l ∈ h.locations, l.peer = peer := by
  simp [peers]

end Hit

/-- A submission and everything found out about its positions. -/
structure Ledger where
  submission : Submission
  /-- The number of tokens behind one fingerprint. -/
  width : Nat
  width_pos : 0 < width
  suspicious : ExtTreeMap Position Hit
  common : ExtTreeSet Position
  provided : ExtTreeSet Position
  /-- The fingerprints each peer shares with the suspicious positions. -/
  tally : Tally

/-- What may be recorded of a position. -/
inductive Mark where
  | suspicious (position : Position) (location : Location)
  | common (position : Position)
  | provided (position : Position)
  deriving DecidableEq

/-- The position a mark is about. -/
def Mark.position : Mark → Position
  | .suspicious p _ | .common p | .provided p => p

namespace Ledger

/-- A ledger without marks.  A width of zero counts as one. -/
def ofSubmission (s : Submission) (width : Nat) : Ledger where
  submission := s
  width := max width 1
  width_pos := by omega
  suspicious := ∅
  common := ∅
  provided := ∅
  tally := ∅

/-! ## Windows -/

/-- The positions of the submission whose windows reach `p` from the left, `p` included. -/
def reaching (l : Ledger) (p : Position) : List Position :=
  let first := max (p.toNat - (l.width - 1)) 1
  (List.range' first (min p.toNat l.submission.size + 1 - first)).map UInt64.ofNat

theorem mem_reaching_iff (l : Ledger) (p q : Position) :
    q ∈ l.reaching p ↔
      1 ≤ q.toNat ∧ q.toNat ≤ l.submission.size ∧ q.toNat ≤ p.toNat ∧
        p.toNat < q.toNat + l.width := by
  have hwidth := l.width_pos
  have hp := p.toNat_lt_size
  simp only [reaching, List.mem_map, List.mem_range'_1]
  constructor
  · rintro ⟨i, hi, rfl⟩
    rw [UInt64.toNat_ofNat_of_lt' (by omega)]
    omega
  · exact fun h => ⟨q.toNat, by omega, UInt64.ofNat_toNat⟩

/-- Whether `p` lies in a common or provided window that starts at `p` or before it. -/
def isCovered (l : Ledger) (p : Position) : Bool :=
  (l.reaching p).any fun q => l.common.contains q || l.provided.contains q

/-- Whether a suspicious mark at `p` is kept: `p` is a position of the submission and is not
covered. -/
def admits (l : Ledger) (p : Position) : Bool :=
  (l.submission.fingerprintAt? p).isSome && !l.isCovered p

/-! ## Recording marks -/

/-- The hit at `p`, a new one for the fingerprint `f` if `p` is not suspicious. -/
def hitAt (l : Ledger) (p : Position) (f : Fingerprint) : Hit :=
  (l.suspicious[p]?).getD ⟨f, ∅⟩

/-- Records that `location` has the fingerprint at `p`, unless `p` does not admit suspicion. -/
def addSuspicious (l : Ledger) (p : Position) (location : Location) : Ledger :=
  match l.submission.fingerprintAt? p with
  | none => l
  | some f =>
    if l.isCovered p then l
    else
      let hit := l.hitAt p f
      { l with
        suspicious := l.suspicious.insert p (hit.add location)
        tally := if hit.names location.peer then l.tally else l.tally.add location.peer f }

/-- Clears the suspicion of one position and takes its peers off the tally. -/
def clear (l : Ledger) (p : Position) : Ledger :=
  match l.suspicious[p]? with
  | none => l
  | some hit =>
    { l with
      suspicious := l.suspicious.erase p
      tally := l.tally.removeEach hit.fingerprint hit.peers }

/-- Clears the suspicion of every position whose window reaches `p` from the left. -/
def clearReaching (l : Ledger) (p : Position) : Ledger :=
  (l.reaching p).foldl clear l

/-- Records that too many students share the fingerprint at `p`, unless it is provided code. -/
def addCommon (l : Ledger) (p : Position) : Ledger :=
  if l.provided.contains p then l
  else
    let l := l.clearReaching p
    { l with common := l.common.insert p }

/-- Records that the fingerprint at `p` is provided code. -/
def addProvided (l : Ledger) (p : Position) : Ledger :=
  let l := l.clearReaching p
  { l with common := l.common.erase p, provided := l.provided.insert p }

/-- Records one mark. -/
def record (l : Ledger) : Mark → Ledger
  | .suspicious p location => l.addSuspicious p location
  | .common p => l.addCommon p
  | .provided p => l.addProvided p

/-- Records marks in order. -/
def recordAll (l : Ledger) (marks : List Mark) : Ledger :=
  marks.foldl record l

/-! ## What the ledger tells -/

/-- The number of suspicious positions. -/
def matchedCount (l : Ledger) : Nat :=
  l.suspicious.size

/-- Whether any position is suspicious. -/
def hasSuspicion (l : Ledger) : Bool :=
  !l.suspicious.isEmpty

end Ledger
end Resemblance
