import Resemblance.Json.Number

/-!
# Reading records from JSON values

A record has named fields in a fixed order.  It is written as an object, in which other members are
passed over but a field may not be repeated, or as an array of its fields, in which the last ones
may be left out.

## What is here

* `Value.text?`, `Value.bool?`, `Value.nat?`, `Value.float?`, `Value.list?` — plain values.  None of
  them accepts `null`.
* `Value.keyed?` — the members of an object by name.
* `Value.fields?` — the fields of a record, each present or absent.
* `Value.isPlain` — whether a value can be taken over as it is: its numbers are in range, its strings
  hold no lone surrogate, and it is not nested too deeply.
-/

set_option autoImplicit false
namespace Resemblance
namespace Json
namespace Value

variable {α : Type}

/-! ## Plain values -/

/-- A string. -/
def text? : Value → Option String
  | .string t => t.toString?
  | _ => none

/-- A truth value. -/
def bool? : Value → Option Bool
  | .bool b => some b
  | _ => none

/-- A natural number below a bound. -/
def nat? (bound : Nat) : Value → Option Nat
  | .number n => n.toNat?.filter (· < bound)
  | _ => none

/-- A double. -/
def float? : Value → Option Float
  | .number n => n.toFloat?
  | _ => none

/-- A list. -/
def list? (item? : Value → Option α) : Value → Option (List α)
  | .array items => items.mapM item?
  | _ => none

/-! ## Records -/

/-- The members of an object with their names, if every key is a proper string. -/
def keyed? (members : List (Text × Value)) : Option (List (String × Value)) :=
  members.mapM fun member => member.1.toString?.map (·, member.2)

/-- The member of a name, if there is one.  Two are refused. -/
def unique? (members : List (String × Value)) (name : String) : Option (Option Value) :=
  match members.filter (·.1 == name) with
  | [] => some none
  | [member] => some (some member.2)
  | _ => none

/-- The fields of a record with the given names. -/
def fields? (names : List String) : Value → Option (List (Option Value))
  | .object members => do
    let members ← keyed? members
    names.mapM (unique? members)
  | .array items =>
    if items.length ≤ names.length then
      some (items.map some ++ List.replicate (names.length - items.length) none)
    else none
  | _ => none

/-- A field that may be left out. -/
def fieldOr (default : α) (read? : Value → Option α) : Option Value → Option α
  | none => some default
  | some value => read? value

/-! ## Values taken over as they are -/

mutual

/-- Whether all numbers and strings of a value are proper and arrays and objects are nested at most
`levels` deep. -/
def isPlain (levels : Nat) : Value → Bool
  | .null => true
  | .bool _ => true
  | .number n => n.isInRange
  | .string t => t.toString?.isSome
  | .array items =>
    match levels with
    | 0 => false
    | levels + 1 => arePlain levels items
  | .object members =>
    match levels with
    | 0 => false
    | levels + 1 => membersPlain levels members

/-- Whether all items of an array are plain. -/
def arePlain (levels : Nat) : List Value → Bool
  | [] => true
  | item :: items => isPlain levels item && arePlain levels items

/-- Whether all members of an object are plain. -/
def membersPlain (levels : Nat) : List (Text × Value) → Bool
  | [] => true
  | (key, value) :: members =>
    key.toString?.isSome && isPlain levels value && membersPlain levels members

end

end Value
end Json
end Resemblance
