import Resemblance.Text.Hidden
import Resemblance.Text.Numeral

/-!
# Quoted text

Messages show names and paths in double quotes, with escapes for the quote, the backslash and every
character that would not show.
-/

set_option autoImplicit false
namespace Resemblance
namespace Text

/-- One character of a quoted text.  Five controls have short escapes, other characters that do not
show are written by code point, and all others stand for themselves. -/
def quoteChar (c : Char) : String :=
  match c with
  | '\x00' => "\\0"
  | '\t' => "\\t"
  | '\n' => "\\n"
  | '\r' => "\\r"
  | '"' => "\\\""
  | '\\' => "\\\\"
  | c =>
    if isHidden c then "\\u\x7b" ++ Numeral.lowerDigits 16 c.toNat ++ "\x7d"
    else String.singleton c

/-- A text in double quotes. -/
def quoted (s : String) : String :=
  "\"" ++ String.join (s.toList.map quoteChar) ++ "\""

end Text
end Resemblance
