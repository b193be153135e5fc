/-!
# Numerals

Unsigned whole numbers written in a base from two to sixteen, with digits of either case.

## What is here

* `digitOf? base c` — the value of one digit, below the base (`digitOf?_lt`).
* `digitsOf? base cs` — the values of a text of digits; it fails as soon as one character is none.
* `valueOf base ds` — the number that digits write, most significant first.
* `unsigned? base cs` — reads a numeral: an optional plus sign and at least one digit, any number
  of leading zeros included.
* `lowerDigits base n` — writes a number without leading zeros, in lower case.
-/

set_option autoImplicit false
namespace Resemblance
namespace Text
namespace Numeral

/-- The value of a digit of any base up to thirty-six, in either case. -/
def digitValue? (c : Char) : Option Nat :=
  if '0' ≤ c ∧ c ≤ '9' then some (c.toNat - '0'.toNat)
  else if 'a' ≤ c ∧ c ≤ 'z' then some (c.toNat - 'a'.toNat + 10)
  else if 'A' ≤ c ∧ c ≤ 'Z' then some (c.toNat - 'A'.toNat + 10)
  else none

/-- The value of a digit of the given base. -/
def digitOf? (base : Nat) (c : Char) : Option Nat :=
  (digitValue? c).filter (· < base)

theorem digitOf?_lt {base d : Nat} {c : Char} (h : digitOf? base c = some d) : d < base := by
  simpa using (Option.filter_eq_some_iff.1 h).2

/-- The values of a text that consists of digits. -/
def digitsOf? (base : Nat) (cs : List Char) : Option (List Nat) :=
  cs.mapM (digitOf? base)

/-- The number that digits write, the most significant first. -/
def valueOf (base : Nat) (ds : List Nat) : Nat :=
  ds.foldl (fun n d => base * n + d) 0

theorem valueOf_append_singleton (base : Nat) (ds : List Nat) (d : Nat) :
    valueOf base (ds ++ [d]) = base * valueOf base ds + d := by
  simp [valueOf]

/-- The text without one plus sign in front. -/
def dropPlus : List Char → List Char
  | '+' :: cs => cs
  | cs => cs

/-- The number that a numeral writes: at least one digit, after at most one plus sign. -/
def unsigned? (base : Nat) (cs : List Char) : Option Nat :=
  match digitsOf? base (dropPlus cs) with
  | some (d :: ds) => some (valueOf base (d :: ds))
  | _ => none

/-! ## Writing -/

/-- A number in lower-case digits without leading zeros; zero is one digit. -/
def lowerDigits (base n : Nat) : String :=
  String.ofList (Nat.toDigits base n)

end Numeral
end Text
end Resemblance
