import Resemblance.Json.Number

/-!
# Printing JSON

Arrays and objects are spread over lines: every item and member has a line of its own, indented by
two spaces for each level, and a key is followed by a colon and a space.  Empty ones are closed at
once.  There is no line end after the value.

In strings, the quote, the backslash and the controls below U+0020 are escaped, five of them by a
letter, and all other characters stand for themselves.

## What is here

* `printString`, `printNumber` — literals.
* `printValue` — a value at a level of indentation.
* `pretty` — the text of a value.
-/

set_option autoImplicit false
namespace Resemblance
namespace Json

/-! ## Literals -/

/-- The escape `\u` with four lower-case hexadecimal digits. -/
def escapeCode (code : Nat) : List Char :=
  let digits := Nat.toDigits 16 code
  '\\' :: 'u' :: (List.replicate (4 - digits.length) '0' ++ digits)

/-- One symbol of a string. -/
def printSymbol : Symbol → List Char
  | .char '"' => ['\\', '"']
  | .char '\\' => ['\\', '\\']
  | .char '\x08' => ['\\', 'b']
  | .char '\t' => ['\\', 't']
  | .char '\n' => ['\\', 'n']
  | .char '\x0c' => ['\\', 'f']
  | .char '\r' => ['\\', 'r']
  | .char c => if c.toNat < 0x20 then escapeCode c.toNat else [c]
  | .surrogate code => escapeCode code

/-- A string in its quotes. -/
def printString (t : Text) : List Char :=
  '"' :: (t.flatMap printSymbol ++ ['"'])

/-- Decimal digits. -/
def printDigits (ds : List Nat) : List Char :=
  ds.map Nat.digitChar

/-- A number literal. -/
def printNumber (n : Number) : List Char :=
  let sign := if n.negative then ['-'] else []
  let fraction := if n.fraction.isEmpty then [] else '.' :: printDigits n.fraction
  let exponent := match n.exponent with
    | none => []
    | some (negative, ds) => 'e' :: (if negative then ['-'] else []) ++ printDigits ds
  sign ++ printDigits n.whole ++ fraction ++ exponent

/-! ## Values -/

/-- A new line at a level of indentation. -/
def lineAt (level : Nat) : List Char :=
  '\n' :: List.replicate (2 * level) ' '

mutual

/-- A value whose lines after the first are indented to a level. -/
def printValue (level : Nat) : Value → List Char
  | .null => ['n', 'u', 'l', 'l']
  | .bool true => ['t', 'r', 'u', 'e']
  | .bool false => ['f', 'a', 'l', 's', 'e']
  | .number n => printNumber n
  | .string t => printString t
  | .array [] => ['[', ']']
  | .array (item :: items) =>
    '[' :: (lineAt (level + 1) ++ printValue (level + 1) item ++ printItems (level + 1) items ++
      lineAt level ++ [']'])
  | .object [] => ['\x7b', '\x7d']
  | .object ((key, value) :: members) =>
    '\x7b' :: (lineAt (level + 1) ++ printString key ++ [':', ' '] ++
      printValue (level + 1) value ++ printMembers (level + 1) members ++ lineAt level ++
      ['\x7d'])

/-- The items of an array after the first. -/
def printItems (level : Nat) : List Value → List Char
  | [] => []
  | item :: items => ',' :: (lineAt level ++ printValue level item ++ printItems level items)

/-- The members of an object after the first. -/
def printMembers (level : Nat) : List (Text × Value) → List Char
  | [] => []
  | (key, value) :: members =>
    ',' :: (lineAt level ++ printString key ++ [':', ' '] ++ printValue level value ++
      printMembers level members)

end

/-- The text of a value. -/
def pretty (v : Value) : String :=
  String.ofList (printValue 0 v)

end Json
end Resemblance
