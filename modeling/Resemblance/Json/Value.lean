/-!
# JSON values

Settings and match reports are JSON.  A value is kept as it was written: numbers as their digits,
objects as their members in order, repeated keys included, and strings with surrogates that stand
alone.  What a reader makes of these is its own affair.

## What is here

* `Symbol` and `Text` — strings; `Text.toString?` fails on a lone surrogate.
* `Number` — a number literal.
* `Value` — a JSON value.
-/

set_option autoImplicit false
namespace Resemblance
namespace Json

/-! ## Strings -/

/-- An element of a JSON string. -/
inductive Symbol where
  | char (c : Char)
  /-- An escape that names one half of a surrogate pair. -/
  | surrogate (code : Nat)
  deriving DecidableEq

/-- The content of a JSON string. -/
abbrev Text := List Symbol

namespace Text

/-- The content that writes a string. -/
def ofString (s : String) : Text :=
  s.toList.map Symbol.char

/-- The characters of a content without lone surrogates. -/
def toChars? : Text → Option (List Char)
  | [] => some []
  | .char c :: rest => (toChars? rest).map (c :: ·)
  | .surrogate _ :: _ => none

/-- The string that a content writes, unless a surrogate stands alone in it. -/
def toString? (t : Text) : Option String :=
  (toChars? t).map String.ofList

@[simp] theorem toChars?_map_char (cs : List Char) : toChars? (cs.map Symbol.char) = some cs := by
  induction cs with
  | nil => rfl
  | cons c cs ih => simp [toChars?, ih]

@[simp] theorem toString?_ofString (s : String) : toString? (ofString s) = some s := by
  simp [toString?, ofString]

end Text

/-! ## Numbers -/

/-- A number literal.  A literal without a point has no digits after it. -/
structure Number where
  negative : Bool
  /-- The digits before the point. -/
  whole : List Nat
  /-- The digits after the point. -/
  fraction : List Nat
  /-- Whether the exponent is negative, and its digits. -/
  exponent : Option (Bool × List Nat)
  deriving DecidableEq

/-! ## Values -/

/-- A JSON value. -/
inductive Value where
  | null
  | bool (b : Bool)
  | number (n : Number)
  | string (t : Text)
  | array (items : List Value)
  | object (members : List (Text × Value))

end Json
end Resemblance
