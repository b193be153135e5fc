import Resemblance.Decimal.Exact

/-!
# A fixed number of decimal places

The exact value of a double is rounded to the nearest multiple of the last place, and a tie goes to
the even one.  The sign of a negative value stays even when it rounds to zero.
-/

set_option autoImplicit false
namespace Resemblance
namespace Decimal

/-- The whole number nearest to a fraction; of two, the even one. -/
def roundHalfEven (num den : Nat) : Nat :=
  let q := num / den
  let r := num % den
  if 2 * r < den then q
  else if den < 2 * r then q + 1
  else if q % 2 = 0 then q else q + 1

/-- A double with the given number of decimal places. -/
def fixed (places : Nat) (x : Float) : String :=
  match Exact.ofFloat x with
  | .notANumber => "NaN"
  | .infinite negative => signText negative ++ "inf"
  | .finite negative m e =>
    let (num, den) := scaled m e
    signText negative ++ point (roundHalfEven (num * Nat.pow 10 places) den) places

end Decimal
end Resemblance
