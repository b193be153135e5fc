import Resemblance.Corpus
import Resemblance.Proofs.Attempt
import Resemblance.Proofs.Logged
import Resemblance.Proofs.Text.Numeral
import Resemblance.Proofs.Text.Words

/-!
# Which fingerprint files are accepted

Positions in all reports count the words of a fingerprint file, so a word that were split, passed
over or misread would shift everything behind it.  A file is accepted exactly if each of its words
is a hexadecimal numeral below 2⁶⁴, and then the fingerprint at each position is the number that the
word there denotes.

## What is here

* `Fingerprint.IsWord` — the words that write a fingerprint.
* `Fingerprint.ofText_eq_ok_iff`, `Fingerprint.ofText_eq_error_iff` — what is read off the words of
  a text, and which word is at fault when nothing is.
* `Fingerprint.Entry`, `Fingerprint.textOf` — fingerprints as they may be written into a file.
* `readFingerprints_grammar` — all of it, for a file.
-/

set_option autoImplicit false
namespace Resemblance

open Resemblance.Text
open Resemblance.Text.Numeral (Denotes)

namespace Fingerprint

/-- Whether a word writes a fingerprint: it is a hexadecimal numeral for a number below 2⁶⁴. -/
def IsWord (w : List Char) : Prop :=
  ∃ n < 2 ^ 64, Denotes 16 w n

/-! ## Words -/

theorem ofWord?_eq_some_iff {w : List Char} {f : Fingerprint} :
    ofWord? w = some f ↔ Denotes 16 w f.toNat := by
  rw [← Numeral.unsigned?_eq_some_iff, ofWord?]
  cases Numeral.unsigned? 16 w with
  | none => simp
  | some n =>
    rw [Option.some_inj]
    dsimp only
    split
    · rename_i hn
      rw [Option.some_inj]
      refine ⟨?_, ?_⟩
      · rintro rfl
        exact (UInt64.toNat_ofNat_of_lt' hn).symm
      · rintro rfl
        exact UInt64.ofNat_toNat
    · rename_i hn
      refine ⟨fun h => ?_, ?_⟩
      · exact absurd h (by simp)
      · rintro rfl
        exact absurd f.toNat_lt hn

theorem exists_ofWord?_iff {w : List Char} : (∃ f, ofWord? w = some f) ↔ IsWord w := by
  refine ⟨?_, ?_⟩
  · rintro ⟨f, hf⟩
    exact ⟨f.toNat, f.toNat_lt, ofWord?_eq_some_iff.1 hf⟩
  · rintro ⟨n, hn, hw⟩
    refine ⟨.ofNat n, ofWord?_eq_some_iff.2 ?_⟩
    rwa [UInt64.toNat_ofNat_of_lt' hn]

instance (w : List Char) : Decidable (IsWord w) :=
  decidable_of_iff ((ofWord? w).isSome = true) (Option.isSome_iff_exists.trans exists_ofWord?_iff)

theorem ofWord?_eq_none_iff {w : List Char} : ofWord? w = none ↔ ¬IsWord w := by
  rw [← exists_ofWord?_iff]
  cases ofWord? w <;> simp

/-- All words are read, or none. -/
theorem ofWords_eq_ok_iff {ws : List (List Char)} {fs : List Fingerprint} :
    ofWords ws = .ok fs ↔ List.Forall₂ (fun w f => Denotes 16 w f.toNat) ws fs := by
  induction ws generalizing fs with
  | nil => simp [ofWords, eq_comm]
  | cons w ws ih =>
    rw [ofWords, List.forall₂_cons_left_iff]
    simp only [← ofWord?_eq_some_iff]
    cases ofWord? w with
    | none => simp
    | some f =>
      simp only [map_eq_ok_iff, ih, ofWord?_eq_some_iff, Option.some_inj]
      refine ⟨?_, ?_⟩
      · rintro ⟨rest, hrest, rfl⟩
        exact ⟨f, rest, rfl, hrest, rfl⟩
      · rintro ⟨_, rest, rfl, hrest, rfl⟩
        exact ⟨rest, hrest, rfl⟩

/-- The word at fault is the first that writes no fingerprint. -/
theorem ofWords_eq_error_iff {ws : List (List Char)} {word : String} :
    ofWords ws = .error word ↔
      ∃ before w after, ws = before ++ w :: after ∧ (∀ v ∈ before, IsWord v) ∧ ¬IsWord w ∧
        word = String.ofList w := by
  induction ws with
  | nil => simp [ofWords]
  | cons v ws ih =>
    rw [ofWords]
    cases hv : ofWord? v with
    | none =>
      have hnot := ofWord?_eq_none_iff.1 hv
      dsimp only
      rw [Except.error.injEq]
      refine ⟨?_, ?_⟩
      · rintro rfl
        exact ⟨[], v, ws, rfl, fun _ h => absurd h List.not_mem_nil, hnot, rfl⟩
      · rintro ⟨before, w, after, heq, hbefore, hw, rfl⟩
        cases before with
        | nil => rw [(List.cons.inj heq).1]
        | cons u before =>
          obtain ⟨rfl, -⟩ := List.cons.inj heq
          exact absurd (hbefore v List.mem_cons_self) hnot
    | some f =>
      have hword := exists_ofWord?_iff.1 ⟨f, hv⟩
      dsimp only
      rw [map_eq_error_iff, ih]
      refine ⟨?_, ?_⟩
      · rintro ⟨before, w, after, rfl, hbefore, hw, rfl⟩
        exact ⟨v :: before, w, after, rfl, List.forall_mem_cons.2 ⟨hword, hbefore⟩, hw, rfl⟩
      · rintro ⟨before, w, after, heq, hbefore, hw, rfl⟩
        cases before with
        | nil =>
          obtain ⟨rfl, -⟩ := List.cons.inj heq
          exact absurd hword hw
        | cons u before =>
          obtain ⟨-, rfl⟩ := List.cons.inj heq
          exact ⟨before, w, after, rfl, (List.forall_mem_cons.1 hbefore).2, hw, rfl⟩

theorem exists_ofWords_iff {ws : List (List Char)} :
    (∃ fs, ofWords ws = .ok fs) ↔ ∀ w ∈ ws, IsWord w := by
  refine ⟨?_, fun hall => ?_⟩
  · rintro ⟨fs, h⟩ w hw
    obtain ⟨f, -, hf⟩ := exists_mem_of_forall₂ (ofWords_eq_ok_iff.1 h) hw
    exact ⟨_, f.toNat_lt, hf⟩
  · cases h : ofWords ws with
    | ok fs => exact ⟨fs, rfl⟩
    | error word =>
      obtain ⟨before, w, after, rfl, -, hw, -⟩ := ofWords_eq_error_iff.1 h
      exact absurd (hall w (List.mem_append_right _ List.mem_cons_self)) hw

/-! ## Writing -/

/-- A fingerprint in a file: the digits in which it is written and the gap behind it. -/
structure Entry where
  fingerprint : Fingerprint
  /-- The least number of digits. -/
  width : Nat
  /-- Whether the digits are those of upper case. -/
  upper : Bool
  gap : List Char

/-- The word of an entry. -/
def Entry.word (e : Entry) : List Char :=
  Numeral.padded 16 e.width e.upper e.fingerprint.toNat

/-- The text of a file with a gap at its beginning and entries behind it. -/
def textOf (lead : List Char) (entries : List Entry) : List Char :=
  lead ++ entries.flatMap fun e => e.word ++ e.gap

theorem Entry.denotes_word (e : Entry) : Denotes 16 e.word e.fingerprint.toNat :=
  Numeral.denotes_padded (by decide) (Nat.le_refl 16) _ _ _

/-- No digit is blank. -/
theorem isBlank_of_isDigit {base d : Nat} {c : Char} (h : Numeral.IsDigit base c d) :
    isBlank c = false := by
  have hlower : Numeral.lowerDigitChars.all (!isBlank ·) = true := by decide
  have hupper : Numeral.upperDigitChars.all (!isBlank ·) = true := by decide
  rw [← Bool.not_eq_true']
  rcases h.2 with h | h
  · exact List.all_eq_true.1 hlower c (List.mem_of_getElem? h)
  · exact List.all_eq_true.1 hupper c (List.mem_of_getElem? h)

theorem isWord_of_denotes {base n : Nat} {w : List Char} (h : Denotes base w n) :
    Text.IsWord w := by
  have hdigits : ∀ {cs ds}, List.Forall₂ (Numeral.IsDigit base) cs ds →
      ∀ c ∈ cs, isBlank c = false := by
    intro cs ds h c hc
    obtain ⟨d, -, hd⟩ := exists_mem_of_forall₂ h hc
    exact isBlank_of_isDigit hd
  cases h with
  | plain hne h =>
    refine ⟨?_, hdigits h⟩
    rintro rfl
    exact hne (List.forall₂_nil_left_iff.1 h)
  | plus hne h =>
    exact ⟨List.cons_ne_nil _ _, List.forall_mem_cons.2 ⟨by decide, hdigits h⟩⟩

/-- **Entries are the words of their text** if something stands between them. -/
theorem spaced_textOf {lead : List Char} {entries : List Entry} (hlead : IsGap lead)
    (hgap : ∀ e ∈ entries, IsGap e.gap) (hne : ∀ e ∈ entries.dropLast, e.gap ≠ []) :
    Spaced (entries.map Entry.word) (textOf lead entries) := by
  induction entries generalizing lead with
  | nil =>
    rw [textOf, List.flatMap_nil, List.append_nil]
    exact .gap hlead
  | cons e entries ih =>
    obtain ⟨hbehind, hgaps⟩ := List.forall_mem_cons.1 hgap
    have htext : textOf lead (e :: entries) = lead ++ e.word ++ textOf e.gap entries := by
      rw [textOf, List.flatMap_cons, textOf, List.append_assoc, List.append_assoc]
    rw [htext]
    have hword := isWord_of_denotes e.denotes_word
    cases entries with
    | nil =>
      -- nothing follows, so the last gap may be empty
      have hrest := ih hbehind hgaps fun x hx => absurd hx List.not_mem_nil
      refine .word hlead hword ?_ hrest
      rw [textOf, List.flatMap_nil, List.append_nil]
      exact hbehind.endsWord
    | cons e' entries =>
      rw [List.dropLast_cons_cons, List.forall_mem_cons] at hne
      exact .word hlead hword (hbehind.endsWord.append hne.1 _) (ih hbehind hgaps hne.2)

end Fingerprint

/-! ## Files -/

section File

variable {t : Tree} {path : Path} {text : String}

theorem readFingerprints_eq_ok_iff (h : t.readText path = .ok text) {fs : List Fingerprint} :
    readFingerprints t path = .ok fs ↔ Fingerprint.ofText text = .ok fs := by
  simp only [readFingerprints, h]
  cases Fingerprint.ofText text <;> simp

theorem readFingerprints_eq_error_iff (h : t.readText path = .ok text) {fault : Fault} :
    readFingerprints t path = .error fault ↔ ∃ word, Fingerprint.ofText text = .error word ∧
      fault = .inputIn path.text (.badFingerprint word) := by
  simp only [readFingerprints, h]
  cases Fingerprint.ofText text with
  | ok fs => simp
  | error word => simp [eq_comm]

/-- **A fingerprint file is accepted exactly if its words are hexadecimal numerals below 2⁶⁴.**  A
text falls into words in one way, and these are its maximal runs of characters that are not blank.
If all of them write fingerprints, these are read, one for each word and in their order; otherwise
the fault names the first word that writes none.  So fingerprints that are written in digits of
either case, with or without zeros in front, with blanks between them and perhaps around them, are
read back. -/
theorem readFingerprints_grammar (h : t.readText path = .ok text) :
    (∃ ws, (∀ ws', Spaced ws' text.toList ↔ ws' = ws) ∧ (∀ w, w ∈ ws ↔ IsRun text.toList w) ∧
      (∀ fs, readFingerprints t path = .ok fs ↔
        List.Forall₂ (fun w f => Denotes 16 w f.toNat) ws fs) ∧
      ∀ fault, readFingerprints t path = .error fault ↔
        ∃ before w after, ws = before ++ w :: after ∧ (∀ v ∈ before, Fingerprint.IsWord v) ∧
          ¬Fingerprint.IsWord w ∧
            fault = .inputIn path.text (.badFingerprint (String.ofList w))) ∧
    ((∃ fs, readFingerprints t path = .ok fs) ↔
      ∀ w, IsRun text.toList w → Fingerprint.IsWord w) ∧
    ∀ (lead : List Char) (entries : List Fingerprint.Entry), IsGap lead →
      (∀ e ∈ entries, IsGap e.gap) → (∀ e ∈ entries.dropLast, e.gap ≠ []) →
        text.toList = Fingerprint.textOf lead entries →
          readFingerprints t path = .ok (entries.map Fingerprint.Entry.fingerprint) := by
  simp only [readFingerprints_eq_ok_iff h, readFingerprints_eq_error_iff h, Fingerprint.ofText]
  refine ⟨⟨words text.toList, fun ws => spaced_iff, fun w => mem_words_iff,
    fun fs => Fingerprint.ofWords_eq_ok_iff, fun fault => ?_⟩, ?_, ?_⟩
  · simp only [Fingerprint.ofWords_eq_error_iff]
    refine ⟨?_, ?_⟩
    · rintro ⟨_, ⟨before, w, after, hws, hbefore, hw, rfl⟩, rfl⟩
      exact ⟨before, w, after, hws, hbefore, hw, rfl⟩
    · rintro ⟨before, w, after, hws, hbefore, hw, rfl⟩
      exact ⟨_, ⟨before, w, after, hws, hbefore, hw, rfl⟩, rfl⟩
  · simp only [Fingerprint.exists_ofWords_iff, mem_words_iff]
  · intro lead entries hlead hgap hne htext
    rw [← (Fingerprint.spaced_textOf hlead hgap hne).eq_words.trans (congrArg words htext.symm),
      Fingerprint.ofWords_eq_ok_iff, List.forall₂_map_left_iff, List.forall₂_map_right_iff,
      List.forall₂_same]
    exact fun e _ => e.denotes_word

end File

/-- A file with fingerprints in several spellings, and one in which the second word is none. -/
def spelledFiles : Tree where
  start := []
  nodes := .ofList [
    (["good"], .file "\t0a FF\u00a000000000000000001\n".toUTF8),
    (["bad"], .file "+7 10000000000000000 zz".toUTF8)] compare

theorem readFingerprints_grammar_spelled :
    spelledFiles.readText (.given "/good") = .ok "\t0a FF\u00a000000000000000001\n" ∧
      readFingerprints spelledFiles (.given "/good") = .ok [10, 255, 1] ∧
    spelledFiles.readText (.given "/bad") = .ok "+7 10000000000000000 zz" ∧
      readFingerprints spelledFiles (.given "/bad") =
        .error (.inputIn "/bad" (.badFingerprint "10000000000000000")) := by
  have hgood : spelledFiles.readText (.given "/good") =
      .ok "\t0a FF\u00a000000000000000001\n" := toOption_eq_some_iff.1 (by decide +kernel)
  have hbad : spelledFiles.readText (.given "/bad") = .ok "+7 10000000000000000 zz" :=
    toOption_eq_some_iff.1 (by decide +kernel)
  refine ⟨hgood, ?_, hbad, ?_⟩
  · obtain ⟨-, -, hback⟩ := readFingerprints_grammar hgood
    exact hback ['\t'] [⟨10, 2, false, [' ']⟩, ⟨255, 0, true, ['\u00a0']⟩, ⟨1, 17, false, ['\n']⟩]
      (by decide) (by decide) (by decide) (by decide)
  · obtain ⟨⟨ws, hspaced, -, -, hfault⟩, -⟩ := readFingerprints_grammar hbad
    have hws : words "+7 10000000000000000 zz".toList =
        ["+7".toList, "10000000000000000".toList, "zz".toList] := by decide +kernel
    rw [hfault, ← (hspaced _).1 (spaced_words _), hws]
    exact ⟨["+7".toList], _, _, rfl, by decide, by decide, rfl⟩

end Resemblance
