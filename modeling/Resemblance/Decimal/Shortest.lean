import Resemblance.Decimal.Exact

/-!
# The fewest digits that read back

A double stands for all reals that round to it: an interval whose ends are halfway to its
neighbours, and belong to it when `m` is even.  The text of a double is the decimal with the fewest
digits in that interval, and of those the one nearest to the value.  It is written without an
exponent and without a point when it is whole.

## What is here

* `Interval` — the reals that round to a positive double, in quarters of its last bit.
* `onGrid?` — the decimal of `n` digits in the interval, if there is one.
* `shortest` — the text of a double.
-/

set_option autoImplicit false
namespace Resemblance
namespace Decimal

/-- The reals that round to a positive double, with the double itself, all as multiples of the
same unit fraction.  The ends belong to the interval when `closed` holds. -/
structure Interval where
  low : Nat
  value : Nat
  high : Nat
  /-- The unit is one part in `den`. -/
  den : Nat
  closed : Bool

namespace Interval

/-- The interval of `m · 2 ^ e`.  Below a power of two the neighbours are half as far apart as
above it. -/
def around (m : Nat) (e : Int) : Interval :=
  let below := if m = 0x10000000000000 then 1 else 2
  let scale := (scaled 1 (e - 2)).1
  { low := (4 * m - below) * scale
    value := 4 * m * scale
    high := (4 * m + 2) * scale
    den := (scaled 1 (e - 2)).2
    closed := m % 2 == 0 }

/-- Whether the fraction `num / d` lies in the interval. -/
def contains (i : Interval) (num d : Nat) : Bool :=
  let x := num * i.den
  if i.closed then i.low * d ≤ x && x ≤ i.high * d else i.low * d < x && x < i.high * d

end Interval

/-- The fraction `n · 10 ^ x` as numerator and denominator. -/
def tens (n : Nat) (x : Int) : Nat × Nat :=
  (n * Nat.pow 10 x.toNat, Nat.pow 10 (-x).toNat)

/-- The number of digits before the point of the fraction `num / den`: the least `k` for which the
fraction is below `10 ^ k`. -/
def magnitude (num den : Nat) : Int :=
  if den ≤ num then ((Nat.toDigits 10 (num / den)).length : Int)
  else 1 - ((Nat.toDigits 10 ((den - 1) / num)).length : Int)

/-- The multiple of `10 ^ x` next to the value that lies in the interval; of two, the nearer, and
the greater one when both are equally near. -/
def onGrid? (i : Interval) (x : Int) : Option Nat :=
  let (unit, d) := tens 1 x
  let lower := i.value * d / (i.den * unit)
  let upper := lower + 1
  match i.contains (lower * unit) d, i.contains (upper * unit) d with
  | true, true =>
    let toLower := i.value * d - lower * unit * i.den
    let toUpper := upper * unit * i.den - i.value * d
    if toLower < toUpper then some lower else some upper
  | true, false => some lower
  | false, true => some upper
  | false, false => none

/-- The shortest decimal in the interval, as digits and a power of ten.  Seventeen digits always
suffice. -/
def shortestIn (i : Interval) : Nat × Int :=
  let k := magnitude i.value i.den
  let grids := (List.range 17).map fun n : Nat => k - ((n : Int) + 1)
  (grids.findSome? fun x => (onGrid? i x).map (·, x)).getD (0, 0)

/-- The number `n · 10 ^ x` in positional notation, without zeros after the last decimal place. -/
def positional (n : Nat) (x : Int) : String :=
  if 0 ≤ x then point (n * Nat.pow 10 x.toNat) 0
  else if n % 10 = 0 then point (n / 10) ((-x).toNat - 1)
  else point n (-x).toNat

/-- A double in the fewest digits that read back. -/
def shortest (x : Float) : String :=
  match Exact.ofFloat x with
  | .notANumber => "NaN"
  | .infinite negative => signText negative ++ "inf"
  | .finite negative 0 _ => signText negative ++ "0"
  | .finite negative m e =>
    let (n, x) := shortestIn (.around m e)
    signText negative ++ positional n x

end Decimal
end Resemblance
