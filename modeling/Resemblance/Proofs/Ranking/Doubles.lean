import Resemblance.Double

/-!
# The two orders of doubles

Doubles are compared in two ways.  Which version stands for a student is a matter of the order of
numbers, in which both zeros are the same and what is not a number stands nowhere.  Rankings are
sorted by the order of bits, in which all doubles have a place of their own.

## What is here

* `Double.order` — the order of numbers, by band, exponent and mantissa.  Apart from what is not a
  number it is what `<`, `≤` and `==` compare by (`lt_iff`, `le_iff`, `beq_iff`).
* `Double.place_inj` — only the same bits have the same place, so doubles compare as equal only if
  they are equal bit by bit (`compare_eq_eq_iff`).
-/

set_option autoImplicit false
namespace Resemblance

open Std
open Float.Model (UnpackedFloat)

namespace Double

/-! ## The order of numbers -/

/-- The infinities, the negative and positive numbers and zero, from one end to the other. -/
def band : UnpackedFloat → Int
  | .infinity .negative => -2
  | .finite .negative .. => -1
  | .zero _ => 0
  | .finite .positive .. => 1
  | .infinity .positive => 2
  | .notANumber => 3

/-- The exponent of a number, turned round when the number is negative. -/
def exponent : UnpackedFloat → Int
  | .finite s _ e _ => s.apply e
  | _ => 0

/-- The mantissa of a number, with its sign. -/
def mantissa : UnpackedFloat → Int
  | .finite s m _ _ => s.apply m
  | _ => 0

/-- Unpacked doubles by band, exponent and mantissa. -/
def scale : UnpackedFloat → UnpackedFloat → Ordering :=
  compareLex (compareOn band) (compareLex (compareOn exponent) (compareOn mantissa))

instance : TransCmp scale :=
  inferInstanceAs (TransCmp
    (compareLex (compareOn band) (compareLex (compareOn exponent) (compareOn mantissa))))

theorem compare_neg (a b : Int) : compare (-a) (-b) = (compare a b).swap := by
  rw [← OrientedCmp.eq_swap, Int.compare_eq_ite_lt, Int.compare_eq_ite_lt]
  simp only [Int.neg_lt_neg_iff]

theorem compare_natCast (m n : Nat) : compare (m : Int) (n : Int) = compare m n := by
  rw [Int.compare_eq_ite_lt, Nat.compare_eq_ite_lt]
  simp only [Int.ofNat_lt]

/-- Numbers are compared on the scale. -/
theorem compare_eq_scale : ∀ {x y : UnpackedFloat}, x.isNaN = false → y.isNaN = false →
    x.compare y = some (scale x y)
  | .infinity s, .infinity s', _, _ => by cases s <;> cases s' <;> rfl
  | .infinity s, .zero _, _, _ => by cases s <;> rfl
  | .infinity s, .finite s' .., _, _ => by cases s <;> cases s' <;> rfl
  | .zero _, .infinity s', _, _ => by cases s' <;> rfl
  | .zero _, .zero _, _, _ => rfl
  | .zero _, .finite s' .., _, _ => by cases s' <;> rfl
  | .finite s .., .infinity s', _, _ => by cases s <;> cases s' <;> rfl
  | .finite s .., .zero _, _, _ => by cases s <;> rfl
  | .finite .negative .., .finite .positive .., _, _ => rfl
  | .finite .positive .., .finite .negative .., _, _ => rfl
  | .finite .negative m e _, .finite .negative m' e' _, _, _ => by
    show some _ = some ((compare (-e) (-e')).then (compare (-(m : Int)) (-(m' : Int))))
    rw [compare_neg, compare_neg, compare_natCast, Ordering.swap_then]
  | .finite .positive m e _, .finite .positive m' e' _, _, _ => by
    show some _ = some ((compare e e').then (compare (m : Int) (m' : Int)))
    rw [compare_natCast]

/-- The order of numbers. -/
def order (x y : Double) : Ordering :=
  scale x.toFloat.toModel.unpack y.toFloat.toModel.unpack

instance : TransCmp order where
  eq_swap {x y} :=
    @OrientedCmp.eq_swap _ scale _ x.toFloat.toModel.unpack y.toFloat.toModel.unpack
  isLE_trans {x y z} :=
    @TransCmp.isLE_trans _ scale _ x.toFloat.toModel.unpack y.toFloat.toModel.unpack
      z.toFloat.toModel.unpack

section Numbers

variable {x y : Double} (hx : x.isNaN = false) (hy : y.isNaN = false)

include hx hy

theorem lt_iff : x.toFloat < y.toFloat ↔ order x y = .lt := by
  have hlt : x.toFloat < y.toFloat ↔
      (x.toFloat.toModel.unpack.compare y.toFloat.toModel.unpack == some .lt) = true :=
    decide_eq_true_iff
  rw [hlt, compare_eq_scale hx hy, beq_iff_eq, Option.some_inj, order]

theorem le_iff : x.toFloat ≤ y.toFloat ↔ (order x y).isLE = true := by
  have hle : x.toFloat ≤ y.toFloat ↔
      (x.toFloat.toModel.unpack.compare y.toFloat.toModel.unpack).any Ordering.isLE = true :=
    decide_eq_true_iff
  rw [hle, compare_eq_scale hx hy, Option.any_some, order]

theorem beq_iff : (x.toFloat == y.toFloat) = true ↔ order x y = .eq := by
  have hbeq : (x.toFloat == y.toFloat) =
      (x.toFloat.toModel.unpack.compare y.toFloat.toModel.unpack == some .eq) := rfl
  rw [hbeq, compare_eq_scale hx hy, beq_iff_eq, Option.some_inj, order]

end Numbers

/-! ## The order of bits -/

/-- Different bits have different places. -/
theorem place_inj {x y : Double} : x.place = y.place ↔ x.bits = y.bits := by
  have hx := x.bits.toNat_lt
  have hy := y.bits.toNat_lt
  rw [← UInt64.toNat_inj]
  simp only [place]
  split <;> split <;> omega

instance : TransOrd Double := inferInstanceAs (TransCmp (compareOn place))

theorem compare_eq (x y : Double) : compare x y = compare x.place y.place := rfl

theorem compare_eq_eq_iff {x y : Double} : compare x y = .eq ↔ x.bits = y.bits := by
  rw [compare_eq, Std.compare_eq_iff_eq, place_inj]

theorem compare_eq_lt_iff {x y : Double} : compare x y = .lt ↔ x.place < y.place := by
  rw [compare_eq, compare_eq_lt]

/-- Bits that are not a number stand at both ends. -/
example : compare (⟨0xfff8000000000000⟩ : Double) 0 = .lt ∧
    compare (0 : Double) ⟨0x7ff8000000000000⟩ = .lt := by
  decide +kernel

end Double
end Resemblance
