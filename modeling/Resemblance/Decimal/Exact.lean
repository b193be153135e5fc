/-!
# Exact values of doubles

A finite double is the integer `m` times a power of two.  Texts in decimal notation are made from
this exact value, in whole numbers.

## What is here

* `Exact` — the value of a double: not a number, an infinity, or a sign with `m · 2 ^ e`.
* `Exact.ofFloat` — reads it off a double.
* `scaled n e` — the fraction `n · 2 ^ e` as numerator and denominator.
* `point digits places` — a whole number with a decimal point before its last digits.
-/

set_option autoImplicit false
namespace Resemblance
namespace Decimal

/-- The exact value of a double.  A finite one is `m · 2 ^ e`, with its sign aside. -/
inductive Exact where
  | notANumber
  | infinite (negative : Bool)
  | finite (negative : Bool) (m : Nat) (e : Int)
  deriving DecidableEq

/-- The value of a double. -/
def Exact.ofFloat (x : Float) : Exact :=
  match x.toModel.unpack with
  | .notANumber => .notANumber
  | .infinity sign => .infinite (sign == .negative)
  | .zero sign => .finite (sign == .negative) 0 0
  | .finite sign m e _ => .finite (sign == .negative) m e

/-- The fraction `n · 2 ^ e` as numerator and denominator. -/
def scaled (n : Nat) (e : Int) : Nat × Nat :=
  (n * Nat.pow 2 e.toNat, Nat.pow 2 (-e).toNat)

/-- A minus sign for negative values. -/
def signText (negative : Bool) : String :=
  if negative then "-" else ""

/-- The digits of `n` with a point before the last `places` of them, and at least one digit before
the point.  No point is written for zero places. -/
def point (n places : Nat) : String :=
  let digits := Nat.toDigits 10 n
  let padded := List.replicate (places + 1 - digits.length) '0' ++ digits
  let whole := padded.take (padded.length - places)
  if places = 0 then String.ofList whole
  else String.ofList whole ++ "." ++ String.ofList (padded.drop (padded.length - places))

end Decimal
end Resemblance
