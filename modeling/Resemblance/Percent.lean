import Resemblance.Double

/-!
# Percentages

Shares are doubles between zero and one hundred.
-/

set_option autoImplicit false
namespace Resemblance

/-- `part` in percent of `whole`, at most 100.  The share of nothing is zero. -/
def percentOf (part whole : Nat) : Double :=
  if whole = 0 then 0 else .ofFloat (min (100 * part.toFloat / whole.toFloat) 100)

end Resemblance
