import Resemblance.Position
import Resemblance.Version
import Std.Data.ExtTreeSet

/-!
# Peers and locations

A *peer* is another submission that shares fingerprints with the one under study: a student, a
version and the gradeable it was handed in for, which may belong to an earlier term.  A *location*
is a position inside a peer.

## What is here

* `Peer` and `Location`, both in lexicographic order: by student, version and gradeable, and a
  location then by position.  The locations of one peer are therefore neighbours in every sorted
  list of locations.
* `Peer.label` — a peer on one line.

Strings are compared by code points.
-/

set_option autoImplicit false
namespace Resemblance

open Std

/-! ## Peers -/

/-- Another submission, possibly for another gradeable. -/
structure Peer where
  student : String
  version : Version
  gradeable : String
  deriving DecidableEq

namespace Peer

/-- Peers in order of student, version and gradeable. -/
def order : Peer → Peer → Ordering :=
  compareLex (compareOn student) (compareLex (compareOn version) (compareOn gradeable))

instance : Ord Peer := ⟨order⟩

instance : TransOrd Peer :=
  inferInstanceAs (TransCmp
    (compareLex (compareOn student) (compareLex (compareOn version) (compareOn gradeable))))

instance : LawfulEqOrd Peer where
  eq_of_compare {a b} h := by
    have h : (compareLex (compareOn student) (compareLex (compareOn version) (compareOn gradeable)))
        a b = .eq := h
    simp only [compareLex, compareOn, Ordering.then_eq_eq, Std.compare_eq_iff_eq] at h
    cases a; cases b; simp_all

/-- A peer on one line: student, version and gradeable. -/
def label (p : Peer) : String :=
  p.student ++ "/" ++ toString p.version.toNat ++ "@" ++ p.gradeable

end Peer

/-! ## Locations -/

/-- A place where a fingerprint occurs in another submission. -/
structure Location where
  peer : Peer
  position : Position
  deriving DecidableEq

namespace Location

/-- Locations in order of peer and position. -/
def order : Location → Location → Ordering :=
  compareLex (compareOn peer) (compareOn position)

instance : Ord Location := ⟨order⟩

instance : TransOrd Location :=
  inferInstanceAs (TransCmp (compareLex (compareOn peer) (compareOn position)))

instance : LawfulEqOrd Location where
  eq_of_compare {a b} h := by
    have h : (compareLex (compareOn peer) (compareOn position)) a b = .eq := h
    simp only [compareLex, compareOn, Ordering.then_eq_eq, Std.compare_eq_iff_eq] at h
    cases a; cases b; simp_all

/-- The first place of its peer comes before a location or is the location. -/
theorem isLE_first (l : Location) : (compare (⟨l.peer, 0⟩ : Location) l).isLE = true := by
  change (((compare l.peer l.peer).then (compare 0 l.position))).isLE = true
  rw [compare_self, Ordering.eq_then, isLE_compare]
  exact UInt64.zero_le

/-- A location between the first place of a peer and a location of that peer is of the same peer. -/
theorem peer_eq_of_between {l x : Location}
    (above : (compare (⟨l.peer, 0⟩ : Location) x).isLE = true)
    (below : (compare x l).isLE = true) : x.peer = l.peer := by
  have h₁ : ((compare l.peer x.peer).then (compare 0 x.position)).isLE = true := above
  have h₂ : ((compare x.peer l.peer).then (compare x.position l.position)).isLE = true := below
  have same : compare x.peer l.peer = .eq := OrientedCmp.isLE_antisymm
    (Ordering.isLE_left_of_isLE_then h₂) (Ordering.isLE_left_of_isLE_then h₁)
  exact LawfulEqOrd.eq_of_compare same

/-- Locations in ascending order; equal ones keep their places. -/
def sort (ls : List Location) : List Location :=
  ls.mergeSort fun a b => (compare a b).isLE

end Location
end Resemblance
