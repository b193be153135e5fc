/-!
# Blanks and words

Fingerprint files are texts of words with blanks between them.  A blank is any character with the
Unicode property `White_Space`, and a word is a maximal run of characters that are not blank.

## What is here

* `isBlank c` — the 25 characters of `White_Space`; every character that Lean's own ASCII test
  `Char.isWhitespace` accepts is among them (`isBlank_of_isWhitespace`).
* `words cs` — the words of a text, in order.  No word is empty and no word holds a blank
  (`ne_nil_of_mem_words`, `isBlank_of_mem_words`), and blanks in front change nothing
  (`words_cons_of_isBlank`).
* `isAllBlank s` — whether a text has no word at all.
-/

set_option autoImplicit false
namespace Resemblance
namespace Text

/-- The ranges of code points with the Unicode property `White_Space`, both ends included. -/
def blankRanges : List (Nat × Nat) := [
  (0x09, 0x0d), (0x20, 0x20), (0x85, 0x85), (0xa0, 0xa0), (0x1680, 0x1680), (0x2000, 0x200a),
  (0x2028, 0x2029), (0x202f, 0x202f), (0x205f, 0x205f), (0x3000, 0x3000)]

/-- Whether a character has the Unicode property `White_Space`. -/
def isBlank (c : Char) : Bool :=
  blankRanges.any fun r => r.1 ≤ c.toNat && c.toNat ≤ r.2

theorem isBlank_of_isWhitespace {c : Char} (h : c.isWhitespace = true) : isBlank c = true := by
  simp only [Char.isWhitespace, Bool.or_eq_true, decide_eq_true_eq] at h
  rcases h with ((h | h) | h) | h <;> subst h <;> decide

/-! ## Words -/

/-- The word at the front of a text: everything before its first blank. -/
def firstWord (cs : List Char) : List Char :=
  cs.takeWhile fun c => !isBlank c

/-- What follows the word at the front of a text. -/
def afterWord (cs : List Char) : List Char :=
  cs.dropWhile fun c => !isBlank c

theorem firstWord_append_afterWord (cs : List Char) : firstWord cs ++ afterWord cs = cs :=
  List.takeWhile_append_dropWhile

theorem length_afterWord_le (cs : List Char) : (afterWord cs).length ≤ cs.length :=
  (List.dropWhile_sublist _).length_le

/-- The words of a text: its maximal runs of characters that are not blank, in order. -/
def words : List Char → List (List Char)
  | [] => []
  | c :: cs =>
    if isBlank c then words cs else (c :: firstWord cs) :: words (afterWord cs)
termination_by cs => cs.length
decreasing_by
  · simp
  · simpa using Nat.lt_succ_of_le (length_afterWord_le cs)

@[simp] theorem words_nil : words [] = [] := by
  simp only [words]

theorem words_cons_of_isBlank {c : Char} (h : isBlank c = true) (cs : List Char) :
    words (c :: cs) = words cs := by
  simp only [words, h, if_true]

theorem words_cons_of_not_isBlank {c : Char} (h : isBlank c = false) (cs : List Char) :
    words (c :: cs) = (c :: firstWord cs) :: words (afterWord cs) := by
  simp only [words, h, Bool.false_eq_true, if_false]

theorem isBlank_of_mem_firstWord {c : Char} {cs : List Char} (h : c ∈ firstWord cs) :
    isBlank c = false := by
  induction cs with
  | nil => simp [firstWord] at h
  | cons d ds ih =>
    by_cases hd : isBlank d = true
    · simp [firstWord, hd] at h
    · simp only [firstWord, hd, Bool.not_false, List.takeWhile_cons_of_pos, List.mem_cons] at h
      rcases h with rfl | h
      · simpa using hd
      · exact ih h

theorem ne_nil_of_mem_words {w : List Char} {cs : List Char} (h : w ∈ words cs) : w ≠ [] := by
  fun_induction words cs with
  | case1 => simp at h
  | case2 c cs hc ih => exact ih h
  | case3 c cs hc ih =>
    rcases List.mem_cons.1 h with rfl | h
    · simp
    · exact ih h

theorem isBlank_of_mem_words {w : List Char} {cs : List Char} (h : w ∈ words cs) {c : Char}
    (hc : c ∈ w) : isBlank c = false := by
  fun_induction words cs with
  | case1 => simp at h
  | case2 d cs hd ih => exact ih h
  | case3 d cs hd ih =>
    rcases List.mem_cons.1 h with rfl | h
    · rcases List.mem_cons.1 hc with rfl | hc
      · simpa using hd
      · exact isBlank_of_mem_firstWord hc
    · exact ih h

/-- Whether a text holds no word: it is empty or all its characters are blank. -/
def isAllBlank (s : String) : Bool :=
  s.toList.all isBlank

end Text
end Resemblance
