import Resemblance.Peer

/-!
# Regions

A region is a range of positions of a submission that were classified alike.  For a match it tells
where the range is found in other submissions.

## What is here

* `Window` — a range of positions in another submission.
* `Group` — windows of one peer.
* `Kind` — what a region was classified as, and `Tag` — the same without the groups.
* `Region` — a range of positions and its kind.

Both ends of a range belong to it.  Ends are sums of positions, and these wrap around like all sums
of words.  That arithmetic with checks would break off instead is left out.
-/

set_option autoImplicit false
namespace Resemblance

/-- A range of positions in another submission. -/
structure Window where
  first : Position
  last : Position
  deriving DecidableEq

/-- Windows of one other submission. -/
structure Group where
  peer : Peer
  windows : List Window
  deriving DecidableEq

/-- Whether two groups are about the same submission. -/
def Group.samePeer (a b : Group) : Bool :=
  a.peer == b.peer

/-- What the positions of a region are. -/
inductive Kind where
  /-- Other submissions have the same fingerprints. -/
  | matched (others : List Group)
  | common
  | provided
  deriving DecidableEq

/-- The three types of regions. -/
inductive Tag where
  | matched
  | common
  | provided
  deriving DecidableEq

/-- The type of a kind. -/
def Kind.tag : Kind → Tag
  | .matched _ => .matched
  | .common => .common
  | .provided => .provided

/-- A range of positions of a submission that were classified alike. -/
structure Region where
  first : Position
  last : Position
  kind : Kind
  deriving DecidableEq

namespace Region

/-- The region of a single position. -/
def single (position : Position) (kind : Kind) : Region :=
  ⟨position, position, kind⟩

/-- Whether the region tells of other submissions. -/
def isMatch (r : Region) : Bool :=
  match r.kind with
  | .matched _ => true
  | _ => false

end Region
end Resemblance
