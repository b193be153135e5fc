/-!
# Doubles

A double is a word of 64 bits.  `Float` is what the bits mean as a number, and means the same by all
bits that are not a number, while the sign and the rest of such bits count where doubles are sorted.

## What is here

* `Double.toFloat` — what the bits mean, and `Double.ofFloat`, bits for a number.
* `Double.place` — the place of a double among all doubles, by which doubles are compared.
* `Double.lift` — arithmetic on bits, for sums, products and quotients.
-/

set_option autoImplicit false
namespace Resemblance

/-- The 64 bits of a double. -/
structure Double where
  bits : UInt64
  deriving DecidableEq

namespace Double

/-! ## What the bits mean -/

/-- What the bits mean as a number. -/
def toFloat (x : Double) : Float := .ofBits x.bits

/-- The bits of a number. -/
def ofFloat (x : Float) : Double := ⟨x.toBits⟩

/-- The double next to a natural number. -/
def ofNat (n : Nat) : Double := .ofFloat n.toFloat

instance {n : Nat} : OfNat Double n := ⟨.ofNat n⟩

instance : OfScientific Double where
  ofScientific m negative e := .ofFloat (.ofScientific m negative e)

/-- Whether the bits are not a number. -/
def isNaN (x : Double) : Bool := x.toFloat.isNaN

/-! ## The order of bits -/

/-- The place of a double among all doubles: its bits as a signed number, all but the sign turned
over if the sign is set.  Without the sign, bits grow with the distance from zero, so `-0` stands
just below `0`, and bits that are not a number stand beyond the infinity of their sign. -/
def place (x : Double) : Int :=
  if x.bits.toNat < 0x8000000000000000 then x.bits.toNat else 0x7fffffffffffffff - x.bits.toNat

instance : Ord Double := ⟨fun x y => compare x.place y.place⟩

/-! ## Arithmetic -/

/-- Bits that are not a number, made quiet. -/
def quiet (x : Double) : Double := ⟨x.bits ||| 0x0008000000000000⟩

/-- The result of an operation on numbers that have none, such as zero times infinity. -/
def indefinite : Double := ⟨0xfff8000000000000⟩

/-- An operation on numbers, taken to all doubles.  What is not a number is passed on, the first of
two.  Which bits result when they are not a number is left open by standards; these are the ones
that x86 processors give. -/
def lift (op : Float → Float → Float) (x y : Double) : Double :=
  if x.isNaN then x.quiet
  else if y.isNaN then y.quiet
  else
    let result := op x.toFloat y.toFloat
    if result.isNaN then indefinite else .ofFloat result

instance : Add Double := ⟨lift (· + ·)⟩
instance : Mul Double := ⟨lift (· * ·)⟩
instance : Div Double := ⟨lift (· / ·)⟩

end Double
end Resemblance
