import Mathlib.Tactic.IntervalCases
import Resemblance.Json.Printer
import Resemblance.Json.Reader

/-!
# Literals that are read back

What is printed for a natural number or a string is read as that number or string again, whatever
text follows the literal.  A number ends where no digit, point or exponent follows, and in the text
of a larger value it is followed by a comma or a new line.

## What is here

* `exists_digits` — the decimal digits of a number.
* `Number.toNat?_ofNat` — the literal of a number denotes it.
* `Follows` — the texts that may follow a value.
* `readNumber?_printNumber`, `readString?_printString` — reading what was printed.
-/

set_option autoImplicit false
namespace Resemblance
namespace Json

/-! ## Numbers -/

/-- The digits of a number are below ten, and only zero begins with a zero. -/
theorem exists_digits (n : Nat) :
    ∃ d ds, Nat.toDigits 10 n = (d :: ds).map Nat.digitChar ∧ (∀ x ∈ d :: ds, x < 10) ∧
      (d = 0 → ds = []) := by
  induction n using Nat.strongRecOn with
  | ind n ih =>
    rw [Nat.toDigits_eq_if (by decide)]
    by_cases hn : n < 10
    · exact ⟨n, [], by rw [if_pos hn]; rfl, by simpa using hn, fun _ => rfl⟩
    · have hlt : n / 10 < n := by omega
      obtain ⟨d, ds, hdigits, hsmall, hzero⟩ := ih (n / 10) hlt
      refine ⟨d, ds ++ [n % 10], ?_, ?_, ?_⟩
      · rw [if_neg hn, hdigits]
        simp
      · intro x hx
        rcases List.mem_append.1 (show x ∈ (d :: ds) ++ [n % 10] from hx) with hx | hx
        · exact hsmall x hx
        · rw [List.mem_singleton.1 hx]
          omega
      · rintro rfl
        -- a leading zero stands alone, so the digits before the last one would write zero
        rw [hzero rfl] at hdigits
        have hvalue := congrArg (Nat.ofDigitChars 10 · 0) hdigits
        simp only [Nat.ofDigitChars_ten_toDigits] at hvalue
        have : n / 10 = 0 := hvalue
        omega

theorem isDigit_digitChar {d : Nat} (h : d < 10) : isDigit (Nat.digitChar d) = true := by
  interval_cases d <;> rfl

/-- The literal of a number, in terms of its digits. -/
theorem Number.ofNat_eq {n d : Nat} {ds : List Nat}
    (hdigits : Nat.toDigits 10 n = (d :: ds).map Nat.digitChar) (hsmall : ∀ x ∈ d :: ds, x < 10) :
    Number.ofNat n = ⟨false, d :: ds, [], none⟩ := by
  have hback : ((d :: ds).map Nat.digitChar).map (fun c => c.toNat - '0'.toNat) = d :: ds := by
    rw [List.map_map, List.map_congr_left (g := id), List.map_id]
    exact fun x hx => Nat.toNat_digitChar_sub_48_of_lt_ten (hsmall x hx)
  rw [Number.ofNat, hdigits, hback]

/-- The literal of a number denotes it. -/
@[simp] theorem Number.toNat?_ofNat (n : Nat) : (Number.ofNat n).toNat? = some n := by
  have hvalue : Text.Numeral.valueOf 10 (Number.ofNat n).whole =
      Nat.ofDigitChars 10 (Nat.toDigits 10 n) 0 := by
    rw [Nat.ofDigitChars_eq_foldl, Text.Numeral.valueOf, Number.ofNat, List.foldl_map]
  rw [Number.toNat?, hvalue, Nat.ofDigitChars_ten_toDigits]
  rfl

/-- The texts that may follow a value. -/
def Follows : List Char → Prop
  | [] => True
  | c :: _ => c = ',' ∨ c = '\n'

theorem readDigits_append {ds : List Nat} (h : ∀ d ∈ ds, d < 10) {rest : List Char}
    (hrest : Follows rest) : readDigits (printDigits ds ++ rest) = (ds, rest) := by
  have hdigit : ∀ c ∈ printDigits ds, isDigit c = true := by
    intro c hc
    obtain ⟨d, hd, rfl⟩ := List.mem_map.1 hc
    exact isDigit_digitChar (h d hd)
  have hstop : rest.takeWhile isDigit = [] ∧ rest.dropWhile isDigit = rest := by
    cases rest with
    | nil => exact ⟨rfl, rfl⟩
    | cons c rest =>
      rcases hrest with rfl | rfl
      · exact ⟨rfl, rfl⟩
      · exact ⟨rfl, rfl⟩
  rw [readDigits, List.takeWhile_append_of_pos hdigit, List.dropWhile_append_of_pos hdigit,
    hstop.1, hstop.2, List.append_nil, printDigits, List.map_map, List.map_congr_left (g := id),
    List.map_id]
  exact fun d hd => Nat.toNat_digitChar_sub_48_of_lt_ten (h d hd)

theorem readWhole?_append {d : Nat} {ds : List Nat} (h : ∀ x ∈ d :: ds, x < 10)
    (hzero : d = 0 → ds = []) {rest : List Char} (hrest : Follows rest) :
    readWhole? (printDigits (d :: ds) ++ rest) = some (d :: ds, rest) := by
  by_cases hd : d = 0
  · rw [hd, hzero hd]
    rfl
  · have hread := readDigits_append h hrest
    unfold readWhole?
    split
    · rename_i heq
      have hchar : Nat.digitChar d = '0' := (List.cons.inj heq).1
      exact absurd (Nat.digitChar_eq_zero.1 hchar) hd
    · rw [readSomeDigits?, hread]

theorem readFraction?_of_follows {rest : List Char} (hrest : Follows rest) :
    readFraction? rest = some ([], rest) := by
  unfold readFraction?
  split
  · exact absurd hrest (by simp [Follows])
  · rfl

theorem readExponent?_of_follows {rest : List Char} (hrest : Follows rest) :
    readExponent? rest = some (none, rest) := by
  cases rest with
  | nil => rfl
  | cons c rest =>
    have hc : ¬(c = 'e' ∨ c = 'E') := by
      rcases hrest with rfl | rfl
      · decide
      · decide
    rw [readExponent?, if_neg hc]

theorem printNumber_ofNat {n d : Nat} {ds : List Nat}
    (hdigits : Nat.toDigits 10 n = (d :: ds).map Nat.digitChar) (hsmall : ∀ x ∈ d :: ds, x < 10) :
    printNumber (.ofNat n) = printDigits (d :: ds) := by
  rw [Number.ofNat_eq hdigits hsmall, printNumber]
  simp

/-- **A natural number is read back.** -/
theorem readNumber?_printNumber (n : Nat) {rest : List Char} (hrest : Follows rest) :
    readNumber? (printNumber (.ofNat n) ++ rest) = some (.ofNat n, rest) := by
  obtain ⟨d, ds, hdigits, hsmall, hzero⟩ := exists_digits n
  have hunsigned : readUnsigned? false (printDigits (d :: ds) ++ rest) =
      some (⟨false, d :: ds, [], none⟩, rest) := by
    rw [readUnsigned?, readWhole?_append hsmall hzero hrest]
    simp only [Option.bind_eq_bind, Option.bind_some, readFraction?_of_follows hrest,
      readExponent?_of_follows hrest]
  rw [printNumber_ofNat hdigits hsmall, Number.ofNat_eq hdigits hsmall, ← hunsigned]
  unfold readNumber?
  split
  · rename_i heq
    have hchar : Nat.digitChar d = '-' := (List.cons.inj heq).1
    have hdigit := isDigit_digitChar (hsmall d List.mem_cons_self)
    exact absurd hdigit (by rw [hchar]; decide)
  · rfl

theorem isSpace_of_isDigit {c : Char} (h : isDigit c = true) : isSpace c = false := by
  rw [Bool.eq_false_iff]
  intro hspace
  simp only [isSpace, Bool.or_eq_true, beq_iff_eq] at hspace
  rcases hspace with ((rfl | rfl) | rfl) | rfl
  all_goals exact absurd h (by decide)

/-- The text of a number begins with a digit. -/
theorem exists_printNumber_eq (n : Nat) :
    ∃ c cs, printNumber (.ofNat n) = c :: cs ∧ isDigit c = true := by
  obtain ⟨d, ds, hdigits, hsmall, -⟩ := exists_digits n
  exact ⟨_, _, printNumber_ofNat hdigits hsmall, isDigit_digitChar (hsmall d List.mem_cons_self)⟩

/-! ## Strings -/

/-- The escape of a control character is the code of that character. -/
theorem escapeCode_eq {code : Nat} (h : code < 0x20) :
    ∃ a b c d, escapeCode code = ['\\', 'u', a, b, c, d] ∧ hexCode? a b c d = some code := by
  refine ⟨'0', '0', Nat.digitChar (code / 16), Nat.digitChar (code % 16), ?_, ?_⟩
  · revert code
    decide
  · revert code
    decide

theorem ofCode_of_lt {c : Char} (h : c.toNat < 0x20) : Symbol.ofCode c.toNat = .char c := by
  have hhigh : isHigh c.toNat = false := by simp [isHigh]; omega
  have hlow : isLow c.toNat = false := by simp [isLow]; omega
  rw [Symbol.ofCode, hhigh, hlow, if_neg (by decide), Char.ofNat_toNat]

theorem readSymbols?_escapeCode {c : Char} (h : c.toNat < 0x20) (cs : List Char) :
    readSymbols? (escapeCode c.toNat ++ cs) =
      (readSymbols? cs).map fun read => (.char c :: read.1, read.2) := by
  obtain ⟨w, x, y, z, hescape, hcode⟩ := escapeCode_eq h
  rw [hescape]
  show readSymbols? ('\\' :: 'u' :: w :: x :: y :: z :: cs) = _
  rw [readSymbols?, hcode]
  cases readSymbols? cs with
  | none => rfl
  | some read => simp [ofCode_of_lt h]

/-- A character that is not escaped. -/
theorem readSymbols?_cons {c : Char} (hquote : c ≠ '"') (hslash : c ≠ '\\')
    (hcontrol : ¬c.toNat < 0x20) (cs : List Char) :
    readSymbols? (c :: cs) = (readSymbols? cs).map fun read => (.char c :: read.1, read.2) := by
  rw [readSymbols?.eq_def]
  split
  · rename_i heq
    exact absurd heq (by simp)
  · rename_i heq
    exact absurd (List.cons.inj heq).1 hquote
  · rename_i heq
    exact absurd (List.cons.inj heq).1 hslash
  · rename_i heq
    exact absurd (List.cons.inj heq).1 hslash
  · rename_i heq
    obtain ⟨rfl, rfl⟩ := List.cons.inj heq
    rw [if_neg (by simp [hslash]; omega)]
    cases readSymbols? cs with
    | none => rfl
    | some read => rfl

/-- A character that is escaped by a letter. -/
theorem readSymbols?_escape {c letter : Char} (h : escaped? letter = some c) (cs : List Char) :
    readSymbols? ('\\' :: letter :: cs) =
      (readSymbols? cs).map fun read => (.char c :: read.1, read.2) := by
  have hcode : escaped? 'u' = none := by decide
  rw [readSymbols?]
  · rw [h]
    cases readSymbols? cs with
    | none => rfl
    | some read => rfl
  · rintro a b d e rest rfl -
    exact absurd (hcode.symm.trans h) (by simp)

/-- A character is escaped by a letter, by its code, or not at all. -/
theorem printSymbol_cases (c : Char) :
    (∃ letter, escaped? letter = some c ∧ printSymbol (.char c) = ['\\', letter]) ∨
      (c.toNat < 0x20 ∧ printSymbol (.char c) = escapeCode c.toNat) ∨
        (c ≠ '"' ∧ c ≠ '\\' ∧ ¬c.toNat < 0x20 ∧ printSymbol (.char c) = [c]) := by
  generalize hs : Symbol.char c = symbol
  unfold printSymbol
  split
  case h_8 x hquote hslash _ _ _ _ _ =>
    obtain rfl := Symbol.char.inj hs
    split
    · rename_i hcontrol
      exact .inr (.inl ⟨hcontrol, rfl⟩)
    · rename_i hcontrol
      exact .inr (.inr ⟨hquote, hslash, hcontrol, rfl⟩)
  case h_9 => exact absurd hs (by simp)
  -- what is left are the characters that have a letter
  all_goals
    obtain rfl := Symbol.char.inj hs
    exact .inl ⟨_, rfl, rfl⟩

/-- One character of a string is read back. -/
theorem readSymbols?_printSymbol (c : Char) (cs : List Char) :
    readSymbols? (printSymbol (.char c) ++ cs) =
      (readSymbols? cs).map fun read => (.char c :: read.1, read.2) := by
  rcases printSymbol_cases c with ⟨letter, hletter, hprint⟩ | ⟨hcontrol, hprint⟩ |
    ⟨hquote, hslash, hcontrol, hprint⟩
  · rw [hprint]
    exact readSymbols?_escape hletter cs
  · rw [hprint]
    exact readSymbols?_escapeCode hcontrol cs
  · rw [hprint]
    exact readSymbols?_cons hquote hslash hcontrol cs

theorem readSymbols?_flatMap_printSymbol (cs rest : List Char) :
    readSymbols? ((cs.map Symbol.char).flatMap printSymbol ++ '"' :: rest) =
      some (cs.map Symbol.char, rest) := by
  induction cs with
  | nil => rfl
  | cons c cs ih =>
    rw [List.map_cons, List.flatMap_cons, List.append_assoc, readSymbols?_printSymbol, ih]
    rfl

/-- Characters are no halves of surrogate pairs. -/
theorem joinPairs_map_char : ∀ cs : List Char, joinPairs (cs.map Symbol.char) = cs.map Symbol.char
  | [] => rfl
  | [_] => rfl
  | c :: c' :: cs => congrArg (Symbol.char c :: ·) (joinPairs_map_char (c' :: cs))

/-- **A string is read back**, once its opening quote was read. -/
theorem readString?_printString (s : String) (rest : List Char) :
    ∃ cs, printString (Text.ofString s) = '"' :: cs ∧
      readString? (cs ++ rest) = some (Text.ofString s, rest) := by
  refine ⟨_, rfl, ?_⟩
  rw [List.append_assoc, Text.ofString, readString?]
  show (readSymbols? (_ ++ '"' :: rest)).map _ = _
  rw [readSymbols?_flatMap_printSymbol, Option.map_some, joinPairs_map_char]

end Json
end Resemblance
