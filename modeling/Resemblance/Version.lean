import Resemblance.Text.Numeral

/-!
# Version numbers

A student may hand in several versions of the same work.  They are numbered from one, and the
number is the name of the directory that holds the version.
-/

set_option autoImplicit false
namespace Resemblance

/-- The number of a version, a 32-bit word. -/
abbrev Version := UInt32

/-- The version a directory name denotes: a decimal numeral from 1 to 2³² - 1. -/
def Version.ofName? (name : String) : Option Version :=
  match Text.Numeral.unsigned? 10 name.toList with
  | some n => if 0 < n ∧ n < UInt32.size then some (UInt32.ofNat n) else none
  | none => none

end Resemblance
