import Resemblance.Region.Basic

/-!
# Merging neighbouring regions

A region is continued by the next one if that ends one position later, is of the same kind and, for
a match, has the same groups with every window moved on by one.  Merging walks over a list once and
lets each region grow as long as the next one continues it.  The position after the last one is
zero.

## What is here

* `Region.continuedBy` — whether a region is continued by another.
* `Region.grow` — a region with one more position.
* `Region.merge` — the merged list.
-/

set_option autoImplicit false
namespace Resemblance

/-- Whether the second window ends one position after the first. -/
def Window.continuedBy (before after : Window) : Bool :=
  after.last == before.last + 1

/-- Whether two lists have the same length and are related item by item. -/
def itemwise {α : Type} (related : α → α → Bool) : List α → List α → Bool
  | [], [] => true
  | a :: as, b :: bs => related a b && itemwise related as bs
  | _, _ => false

/-- Whether two groups are of the same peer and the windows of the second continue those of the
first. -/
def Group.continuedBy (before after : Group) : Bool :=
  before.samePeer after && itemwise Window.continuedBy before.windows after.windows

/-- Whether positions of the second kind continue positions of the first. -/
def Kind.continuedBy : Kind → Kind → Bool
  | .matched before, .matched after => itemwise Group.continuedBy before after
  | .common, .common => true
  | .provided, .provided => true
  | _, _ => false

/-- A window with one more position. -/
def Window.grow (w : Window) : Window :=
  { w with last := w.last + 1 }

/-- A group with one more position in each window. -/
def Group.grow (g : Group) : Group :=
  { g with windows := g.windows.map Window.grow }

/-- A kind with one more position in each window. -/
def Kind.grow : Kind → Kind
  | .matched others => .matched (others.map Group.grow)
  | kind => kind

namespace Region

/-- Whether the second region continues the first. -/
def continuedBy (before after : Region) : Bool :=
  after.last == before.last + 1 && before.kind.continuedBy after.kind

/-- A region that ends one position later. -/
def grow (r : Region) : Region :=
  { r with last := r.last + 1, kind := r.kind.grow }

/-- Merges what follows into an open region, as long as it continues it. -/
def mergeInto (opened : Region) : List Region → List Region
  | [] => [opened]
  | r :: rs =>
    if opened.continuedBy r then mergeInto opened.grow rs else opened :: mergeInto r rs

/-- Merges every region into its predecessor when it continues it. -/
def merge : List Region → List Region
  | [] => []
  | r :: rs => mergeInto r rs

end Region
end Resemblance
