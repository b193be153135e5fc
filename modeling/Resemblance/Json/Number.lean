import Resemblance.Json.Value
import Resemblance.Text.Numeral

/-!
# What number literals denote

A literal without sign, point and exponent is a natural number.  Every literal is also a double,
computed from as many leading digits as fit in 64 bits and a power of ten.  That takes one rounding
for the digits and one for the power, so the result can differ from the nearest double in its last
bit.

## What is here

* `Number.ofNat` and `Number.toNat?` — natural numbers.
* `Number.toFloat?` — the double, unless it is too large.
* `Number.isInRange` — whether a literal can be taken over, as a natural number or as a double.
-/

set_option autoImplicit false
namespace Resemblance
namespace Json
namespace Number

/-- The literal of a natural number. -/
def ofNat (n : Nat) : Number where
  negative := false
  whole := (Nat.toDigits 10 n).map fun c => c.toNat - '0'.toNat
  fraction := []
  exponent := none

/-- The natural number of a literal that is nothing but digits. -/
def toNat? (n : Number) : Option Nat :=
  if !n.negative && n.fraction.isEmpty && n.exponent.isNone then
    some (Text.Numeral.valueOf 10 n.whole)
  else none

/-! ## Doubles -/

/-- Takes in digits before the point while the number fits in 64 bits.  The others count as powers
of ten. -/
def takeWhole (significand : Nat) : List Nat → Nat × Int
  | [] => (significand, 0)
  | d :: ds =>
    if significand * 10 + d < UInt64.size then takeWhole (significand * 10 + d) ds
    else (significand, (d :: ds).length)

/-- Takes in digits after the point while the number fits in 64 bits.  The others are dropped. -/
def takeFraction (significand : Nat) (power : Int) : List Nat → Nat × Int
  | [] => (significand, power)
  | d :: ds =>
    if significand * 10 + d < UInt64.size then takeFraction (significand * 10 + d) (power - 1) ds
    else (significand, power)

/-- The greatest size of a power of ten. -/
def powerLimit : Nat := 0x80000000

/-- A power of ten from `-powerLimit` to `powerLimit - 1`; others are brought to the nearer end. -/
def clampPower (e : Int) : Int :=
  max (-(powerLimit : Int)) (min e ((powerLimit : Int) - 1))

/-- A double times a power of ten, by one multiplication or division for every 308 powers. -/
def timesPower (x : Float) (e : Int) : Option Float :=
  if e.natAbs ≤ 308 then
    let ten := Float.ofScientific 1 false e.natAbs
    if 0 ≤ e then
      if (x * ten).isInf then none else some (x * ten)
    else some (x / ten)
  else if x == 0 then some x
  else if 0 ≤ e then none
  else timesPower (x / Float.ofScientific 1 false 308) (e + 308)
termination_by e.natAbs
decreasing_by omega

/-- The double of a literal without its sign. -/
def magnitude? (n : Number) : Option Float :=
  let (s₁, e₁) := takeWhole 0 n.whole
  let (s, e) := takeFraction s₁ e₁ n.fraction
  match n.exponent with
  | none => timesPower s.toFloat (clampPower e)
  | some (negative, digits) =>
    let size := Text.Numeral.valueOf 10 digits
    if size < powerLimit then
      timesPower s.toFloat (clampPower (if negative then e - size else e + size))
    else if s ≠ 0 ∧ !negative then none
    else some 0

/-- The double of a literal, unless it is too large. -/
def toFloat? (n : Number) : Option Float :=
  n.magnitude?.map fun x => if n.negative then -x else x

/-- Whether a literal can be taken over: a natural number of 64 bits as it is, and any other literal
as a double. -/
def isInRange (n : Number) : Bool :=
  n.toNat?.any (· < UInt64.size) || n.toFloat?.isSome

end Number
end Json
end Resemblance
