import Resemblance.Fingerprint
import Resemblance.Peer
import Std.Data.ExtTreeMap

/-!
# Tallies of peers

A tally counts, for each peer and each fingerprint, the suspicious positions with that fingerprint
that name the peer.  What is reported of a peer is the number of its fingerprints, so a fingerprint
that stands at several positions weighs once, and it is dropped only when the last of them goes.

## What is here

* `Tally.count` — the count of a fingerprint for a peer, zero if there is none.
* `Tally.add`, `Tally.remove` — one position more or less.  A fingerprint whose count reaches zero
  leaves the tally, and a peer leaves it with its last fingerprint.
* `Tally.removeEach` — one position less for several peers.
* `Tally.matched` — every peer with its number of fingerprints, in order of the peers.
-/

set_option autoImplicit false
namespace Resemblance

open Std

/-- For each peer, how many suspicious positions there are of each fingerprint. -/
abbrev Tally := ExtTreeMap Peer (ExtTreeMap Fingerprint Nat)

namespace Tally

/-- The number of suspicious positions of a fingerprint that name a peer. -/
def count (t : Tally) (peer : Peer) (f : Fingerprint) : Nat :=
  ((t[peer]?).bind fun counts => counts[f]?).getD 0

/-- One more position with this fingerprint names the peer. -/
def add (t : Tally) (peer : Peer) (f : Fingerprint) : Tally :=
  t.alter peer fun counts? =>
    some ((counts?.getD ∅).alter f fun n? => some (n?.getD 0 + 1))

/-- One count less; a count of one leaves. -/
def lower : Option Nat → Option Nat
  | some (n + 2) => some (n + 1)
  | _ => none

/-- One position with this fingerprint no longer names the peer. -/
def remove (t : Tally) (peer : Peer) (f : Fingerprint) : Tally :=
  t.alter peer fun counts? =>
    match counts? with
    | none => none
    | some counts =>
      let rest := counts.alter f lower
      if rest.isEmpty then none else some rest

/-- One position with this fingerprint no longer names any of the peers. -/
def removeEach (t : Tally) (f : Fingerprint) (peers : List Peer) : Tally :=
  peers.foldl (fun t peer => t.remove peer f) t

/-- Each peer with the number of different fingerprints it shares. -/
def matched (t : Tally) : List (Peer × Nat) :=
  t.toList.map fun entry => (entry.1, entry.2.size)

end Tally
end Resemblance
