import Resemblance.Json.Value
import Resemblance.Text.Numeral

/-!
# Reading JSON

The reader takes exactly the JSON grammar: one value, with nothing but spaces, tabs and line ends
around it.

## What is here

Every reading function returns what it read together with the text that follows, or nothing if the
text does not begin as it should.

* `readNumber?`, `readString?` — literals.
* `readValue?` — any value.  Its first argument bounds the number of steps.
* `parse?` — the value of a whole text.
-/

set_option autoImplicit false
namespace Resemblance
namespace Json

/-- The characters that may stand between the parts of a value. -/
def isSpace (c : Char) : Bool :=
  c == ' ' || c == '\t' || c == '\n' || c == '\r'

/-- The text after the spaces at its front. -/
def skipSpaces (cs : List Char) : List Char :=
  cs.dropWhile isSpace

/-! ## Numbers -/

/-- Whether a character is a decimal digit. -/
def isDigit (c : Char) : Bool :=
  '0' ≤ c && c ≤ '9'

/-- The digits at the front of a text. -/
def readDigits (cs : List Char) : List Nat × List Char :=
  ((cs.takeWhile isDigit).map fun c => c.toNat - '0'.toNat, cs.dropWhile isDigit)

/-- At least one digit. -/
def readSomeDigits? (cs : List Char) : Option (List Nat × List Char) :=
  match readDigits cs with
  | ([], _) => none
  | read => some read

/-- The digits before the point: a single zero, or digits that do not begin with one. -/
def readWhole? : List Char → Option (List Nat × List Char)
  | '0' :: rest => some ([0], rest)
  | cs => readSomeDigits? cs

/-- The point and the digits after it, if there is a point. -/
def readFraction? : List Char → Option (List Nat × List Char)
  | '.' :: rest => readSomeDigits? rest
  | cs => some ([], cs)

/-- The sign of an exponent, if there is one. -/
def readSign : List Char → Bool × List Char
  | '-' :: rest => (true, rest)
  | '+' :: rest => (false, rest)
  | cs => (false, cs)

/-- The exponent, if there is one. -/
def readExponent? : List Char → Option (Option (Bool × List Nat) × List Char)
  | [] => some (none, [])
  | c :: rest =>
    if c = 'e' ∨ c = 'E' then do
      let (negative, rest) := readSign rest
      let (digits, rest) ← readSomeDigits? rest
      some (some (negative, digits), rest)
    else some (none, c :: rest)

/-- A number literal without its sign. -/
def readUnsigned? (negative : Bool) (cs : List Char) : Option (Number × List Char) := do
  let (whole, cs) ← readWhole? cs
  let (fraction, cs) ← readFraction? cs
  let (exponent, cs) ← readExponent? cs
  some (⟨negative, whole, fraction, exponent⟩, cs)

/-- A number literal. -/
def readNumber? : List Char → Option (Number × List Char)
  | '-' :: rest => readUnsigned? true rest
  | cs => readUnsigned? false cs

/-! ## Strings -/

/-- What an escape of one character stands for. -/
def escaped? : Char → Option Char
  | '"' => some '"'
  | '\\' => some '\\'
  | '/' => some '/'
  | 'b' => some '\x08'
  | 'f' => some '\x0c'
  | 'n' => some '\n'
  | 'r' => some '\r'
  | 't' => some '\t'
  | _ => none

/-- The code of four hexadecimal digits. -/
def hexCode? (a b c d : Char) : Option Nat :=
  (Text.Numeral.digitsOf? 16 [a, b, c, d]).map (Text.Numeral.valueOf 16)

/-- Whether a code is the first half of a surrogate pair. -/
def isHigh (code : Nat) : Bool :=
  0xd800 ≤ code && code < 0xdc00

/-- Whether a code is the second half of a surrogate pair. -/
def isLow (code : Nat) : Bool :=
  0xdc00 ≤ code && code < 0xe000

/-- The symbol of an escape by code. -/
def Symbol.ofCode (code : Nat) : Symbol :=
  if isHigh code || isLow code then .surrogate code else .char (Char.ofNat code)

/-- The character that a surrogate pair stands for. -/
def pairChar (high low : Nat) : Char :=
  Char.ofNat (0x10000 + (high - 0xd800) * 0x400 + (low - 0xdc00))

/-- Joins the halves of surrogate pairs. -/
def joinPairs : Text → Text
  | [] => []
  | [s] => [s]
  | .surrogate high :: .surrogate low :: rest =>
    if isHigh high && isLow low then .char (pairChar high low) :: joinPairs rest
    else .surrogate high :: joinPairs (.surrogate low :: rest)
  | s :: s' :: rest => s :: joinPairs (s' :: rest)

/-- The symbols of a string up to its closing quote. -/
def readSymbols? : List Char → Option (Text × List Char)
  | [] => none
  | '"' :: rest => some ([], rest)
  | '\\' :: 'u' :: a :: b :: c :: d :: rest => do
    let code ← hexCode? a b c d
    let (symbols, rest) ← readSymbols? rest
    some (Symbol.ofCode code :: symbols, rest)
  | '\\' :: c :: rest => do
    let e ← escaped? c
    let (symbols, rest) ← readSymbols? rest
    some (.char e :: symbols, rest)
  | c :: rest =>
    if c = '\\' ∨ c.toNat < 0x20 then none
    else do
      let (symbols, rest) ← readSymbols? rest
      some (.char c :: symbols, rest)

/-- A string after its opening quote. -/
def readString? (cs : List Char) : Option (Text × List Char) :=
  (readSymbols? cs).map fun read => (joinPairs read.1, read.2)

/-! ## Values -/

mutual

/-- A value, after spaces. -/
def readValue? : Nat → List Char → Option (Value × List Char)
  | 0, _ => none
  | steps + 1, cs =>
    match skipSpaces cs with
    | 'n' :: 'u' :: 'l' :: 'l' :: rest => some (.null, rest)
    | 't' :: 'r' :: 'u' :: 'e' :: rest => some (.bool true, rest)
    | 'f' :: 'a' :: 'l' :: 's' :: 'e' :: rest => some (.bool false, rest)
    | '"' :: rest => (readString? rest).map fun read => (.string read.1, read.2)
    | '[' :: rest =>
      match skipSpaces rest with
      | ']' :: rest => some (.array [], rest)
      | rest => (readItems? steps rest).map fun read => (.array read.1, read.2)
    | '\x7b' :: rest =>
      match skipSpaces rest with
      | '\x7d' :: rest => some (.object [], rest)
      | rest => (readMembers? steps rest).map fun read => (.object read.1, read.2)
    | cs => (readNumber? cs).map fun read => (.number read.1, read.2)

/-- The items of an array, at least one, up to its closing bracket. -/
def readItems? : Nat → List Char → Option (List Value × List Char)
  | 0, _ => none
  | steps + 1, cs =>
    match readValue? steps cs with
    | none => none
    | some (item, rest) =>
      match skipSpaces rest with
      | ']' :: rest => some ([item], rest)
      | ',' :: rest => (readItems? steps rest).map fun read => (item :: read.1, read.2)
      | _ => none

/-- The members of an object, at least one, up to its closing brace. -/
def readMembers? : Nat → List Char → Option (List (Text × Value) × List Char)
  | 0, _ => none
  | steps + 1, cs =>
    match skipSpaces cs with
    | '"' :: rest =>
      match readString? rest with
      | none => none
      | some (key, rest) =>
        match skipSpaces rest with
        | ':' :: rest =>
          match readValue? steps rest with
          | none => none
          | some (value, rest) =>
            match skipSpaces rest with
            | '\x7d' :: rest => some ([(key, value)], rest)
            | ',' :: rest =>
              (readMembers? steps rest).map fun read => ((key, value) :: read.1, read.2)
            | _ => none
        | _ => none
    | _ => none

end

/-- The value of a whole text.  Every second step reads at least one character. -/
def parse? (text : String) : Option Value :=
  let cs := text.toList
  match readValue? (2 * cs.length + 2) cs with
  | some (value, rest) => if (skipSpaces rest).isEmpty then some value else none
  | none => none

end Json
end Resemblance
