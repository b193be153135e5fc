import Resemblance.Text.Numeral
import Resemblance.Text.Words

/-!
# Fingerprints

A fingerprint is the 64-bit hash of a window of tokens.  Fingerprints are only compared for
equality.  A fingerprint file lists those of one submission as hexadecimal words, and the number of
a word, counted from one, is the position of its fingerprint.

## What is here

* `Fingerprint.ofWord?` — the fingerprint one word writes.
* `Fingerprint.ofText` — the fingerprints of a text, or the first word that writes none.
-/

set_option autoImplicit false
namespace Resemblance

/-- The hash of a window of tokens, a 64-bit word. -/
abbrev Fingerprint := UInt64

namespace Fingerprint

/-- The fingerprint a word writes: a hexadecimal numeral below 2⁶⁴. -/
def ofWord? (word : List Char) : Option Fingerprint :=
  match Text.Numeral.unsigned? 16 word with
  | some n => if n < UInt64.size then some (UInt64.ofNat n) else none
  | none => none

/-- The fingerprints of a list of words, or the first word that writes none. -/
def ofWords : List (List Char) → Except String (List Fingerprint)
  | [] => .ok []
  | word :: rest =>
    match ofWord? word with
    | none => .error (String.ofList word)
    | some f => (ofWords rest).map (f :: ·)

/-- The fingerprints of a text, in order, or its first word that writes none. -/
def ofText (text : String) : Except String (List Fingerprint) :=
  ofWords (Text.words text.toList)

end Fingerprint
end Resemblance
