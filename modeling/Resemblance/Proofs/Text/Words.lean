import Mathlib.Data.List.Basic
import Resemblance.Text.Words

/-!
# Where the words of a text are

`words` walks over a text and cuts a word whenever it meets a character that is not blank.  What it
finds can be told without walking: a text falls into words in one way only, and its words are its
maximal runs of characters that are not blank.

## What is here

* `IsWord`, `IsGap` — what may be a word, and what may stand beside one.
* `Spaced ws cs` — the text `cs` is made of the words `ws` with gaps around them; `spaced_iff` says
  that there is one such list for each text, the one that `words` finds.
* `IsRun`, `mem_words_iff` — the words of a text are its maximal runs.
-/

set_option autoImplicit false
namespace Resemblance
namespace Text

/-- Whether all characters are blank. -/
def IsGap (cs : List Char) : Prop :=
  ∀ c ∈ cs, isBlank c = true

instance (cs : List Char) : Decidable (IsGap cs) :=
  List.decidableBAll _ cs

/-- Whether there are characters and none of them is blank. -/
structure IsWord (w : List Char) : Prop where
  ne_nil : w ≠ []
  isBlank_eq : ∀ c ∈ w, isBlank c = false

/-- Whether a word that stands before a text ends there: the text is empty or begins with a
blank. -/
def EndsWord (cs : List Char) : Prop :=
  ∀ c ∈ cs.head?, isBlank c = true

/-- Whether a word that stands after a text begins there: the text is empty or ends with a blank. -/
def BeginsWord (cs : List Char) : Prop :=
  ∀ c ∈ cs.getLast?, isBlank c = true

/-- Whether a text is made of words with gaps before, between and after them.  Only the gaps between
two words have to hold a blank. -/
inductive Spaced : List (List Char) → List Char → Prop
  | gap {gap : List Char} (hgap : IsGap gap) : Spaced [] gap
  | word {gap w rest : List Char} {ws : List (List Char)} (hgap : IsGap gap) (hw : IsWord w)
      (hend : EndsWord rest) (hrest : Spaced ws rest) : Spaced (w :: ws) (gap ++ w ++ rest)

/-- Whether a word is a maximal run of characters of a text that are not blank. -/
structure IsRun (cs w : List Char) : Prop where
  isWord : IsWord w
  maximal : ∃ before after, cs = before ++ w ++ after ∧ BeginsWord before ∧ EndsWord after

/-! ## Gaps and words -/

theorem isGap_nil : IsGap [] := fun _ hc => absurd hc List.not_mem_nil

theorem IsGap.append {gap cs : List Char} (hgap : IsGap gap) (h : IsGap cs) : IsGap (gap ++ cs) :=
  List.forall_mem_append.2 ⟨hgap, h⟩

theorem IsGap.endsWord {gap : List Char} (h : IsGap gap) : EndsWord gap :=
  fun c hc => h c (List.mem_of_head? hc)

theorem IsGap.beginsWord {gap : List Char} (h : IsGap gap) : BeginsWord gap :=
  fun c hc => h c (List.mem_of_getLast? hc)

theorem EndsWord.append {cs : List Char} (h : EndsWord cs) (hne : cs ≠ []) (rest : List Char) :
    EndsWord (cs ++ rest) := by
  cases cs with
  | nil => exact absurd rfl hne
  | cons c cs => exact fun d hd => h d hd

theorem beginsWord_append_iff {cs : List Char} (hne : cs ≠ []) (before : List Char) :
    BeginsWord (before ++ cs) ↔ BeginsWord cs := by
  rw [BeginsWord, BeginsWord, List.getLast?_append_of_ne_nil before hne]

/-- A word does not end where another character of it follows. -/
theorem IsWord.not_endsWord {w : List Char} (h : IsWord w) (rest : List Char) :
    ¬EndsWord (w ++ rest) := by
  obtain ⟨hne, hsolid⟩ := h
  cases w with
  | nil => exact absurd rfl hne
  | cons c w =>
    intro hend
    have hc := hend c rfl
    rw [hsolid c List.mem_cons_self] at hc
    exact Bool.false_ne_true hc

/-- No word begins right after another one. -/
theorem IsWord.not_beginsWord {w : List Char} (h : IsWord w) (before : List Char) :
    ¬BeginsWord (before ++ w) := by
  rw [beginsWord_append_iff h.ne_nil]
  intro hbegin
  have hlast := hbegin _ (List.getLast?_eq_some_getLast h.ne_nil)
  rw [h.isBlank_eq _ (List.getLast_mem h.ne_nil)] at hlast
  exact Bool.false_ne_true hlast

/-! ## One way to fall into words -/

theorem words_gap_append {gap : List Char} (h : IsGap gap) (rest : List Char) :
    words (gap ++ rest) = words rest := by
  induction gap with
  | nil => rfl
  | cons c gap ih =>
    obtain ⟨hc, hgap⟩ := List.forall_mem_cons.1 h
    rw [List.cons_append, words_cons_of_isBlank hc, ih hgap]

/-- What stands before the place where a word ends is the first word. -/
theorem firstWord_append {w rest : List Char} (hw : ∀ c ∈ w, isBlank c = false)
    (hend : EndsWord rest) : firstWord (w ++ rest) = w ∧ afterWord (w ++ rest) = rest := by
  have hsolid : ∀ c ∈ w, (!isBlank c) = true := fun c hc => by rw [hw c hc, Bool.not_false]
  have hstop : firstWord rest = [] ∧ afterWord rest = rest := by
    cases rest with
    | nil => exact ⟨rfl, rfl⟩
    | cons c rest => simp [firstWord, afterWord, hend c rfl]
  refine ⟨?_, ?_⟩
  · rw [firstWord, List.takeWhile_append_of_pos hsolid, ← firstWord, hstop.1, List.append_nil]
  · rw [afterWord, List.dropWhile_append_of_pos hsolid, ← afterWord, hstop.2]

theorem words_word_append {w rest : List Char} (hw : IsWord w) (hend : EndsWord rest) :
    words (w ++ rest) = w :: words rest := by
  obtain ⟨hne, hsolid⟩ := hw
  cases w with
  | nil => exact absurd rfl hne
  | cons c w =>
    obtain ⟨hc, hw⟩ := List.forall_mem_cons.1 hsolid
    obtain ⟨hfirst, hafter⟩ := firstWord_append hw hend
    rw [List.cons_append, words_cons_of_not_isBlank hc, hfirst, hafter]

theorem endsWord_afterWord (cs : List Char) : EndsWord (afterWord cs) := by
  intro c hc
  have hstop := List.head?_dropWhile_not (fun c => !isBlank c) cs
  rw [← afterWord, Option.mem_def.1 hc] at hstop
  simpa using hstop

namespace Spaced

variable {ws : List (List Char)} {cs : List Char}

theorem eq_words (h : Spaced ws cs) : ws = words cs := by
  induction h with
  | @gap gap hgap => rw [← List.append_nil gap, words_gap_append hgap, words_nil]
  | word hgap hw hend _ ih =>
    rw [List.append_assoc, words_gap_append hgap, words_word_append hw hend, ← ih]

/-- Blanks in front widen the first gap. -/
theorem gap_append {gap : List Char} (hgap : IsGap gap) (h : Spaced ws cs) :
    Spaced ws (gap ++ cs) := by
  cases h with
  | gap hgap' => exact .gap (hgap.append hgap')
  | word hgap' hw hend hrest =>
    rw [List.append_assoc, ← List.append_assoc, ← List.append_assoc]
    exact .word (hgap.append hgap') hw hend hrest

/-- Two texts in a row, the first of which ends with a blank. -/
theorem append {ws' : List (List Char)} {rest : List Char} (h : Spaced ws cs)
    (hbegin : BeginsWord cs) (hrest : Spaced ws' rest) : Spaced (ws ++ ws') (cs ++ rest) := by
  induction h with
  | gap hgap => exact hrest.gap_append hgap
  | @word gap w after ws hgap hw hend _ ih =>
    have hne : after ≠ [] := by
      rintro rfl
      rw [List.append_nil] at hbegin
      exact hw.not_beginsWord gap hbegin
    rw [beginsWord_append_iff hne] at hbegin
    rw [List.append_assoc, List.cons_append]
    exact .word hgap hw (hend.append hne rest) (ih hbegin)

end Spaced

theorem spaced_words (cs : List Char) : Spaced (words cs) cs := by
  fun_induction words cs with
  | case1 => exact .gap isGap_nil
  | case2 c cs hc ih => exact ih.gap_append (List.forall_mem_singleton.2 hc)
  | case3 c cs hc ih =>
    have hword : IsWord (c :: firstWord cs) := by
      refine ⟨List.cons_ne_nil _ _, List.forall_mem_cons.2 ⟨by simpa using hc, ?_⟩⟩
      exact fun d hd => isBlank_of_mem_firstWord hd
    have hspaced := Spaced.word isGap_nil hword (endsWord_afterWord cs) ih
    rwa [List.nil_append, List.cons_append, firstWord_append_afterWord] at hspaced

/-- **A text falls into words in one way only.** -/
theorem spaced_iff {ws : List (List Char)} {cs : List Char} : Spaced ws cs ↔ ws = words cs :=
  ⟨Spaced.eq_words, fun h => h ▸ spaced_words cs⟩

/-! ## Maximal runs -/

theorem Spaced.isRun {ws : List (List Char)} {cs : List Char} (h : Spaced ws cs) {w : List Char}
    (hmem : w ∈ ws) : IsRun cs w := by
  induction h with
  | gap hgap => exact absurd hmem List.not_mem_nil
  | @word gap v rest ws hgap hv hend _ ih =>
    rcases List.mem_cons.1 hmem with rfl | hmem
    · exact ⟨hv, gap, rest, rfl, hgap.beginsWord, hend⟩
    · obtain ⟨hw, before, after, rfl, hbefore, hafter⟩ := ih hmem
      -- the word before it has ended, so there is something in between
      have hne : before ≠ [] := by
        rintro rfl
        exact hw.not_endsWord after (List.nil_append w ▸ hend)
      refine ⟨hw, gap ++ v ++ before, after, by simp only [List.append_assoc], ?_, hafter⟩
      exact (beginsWord_append_iff hne _).2 hbefore

/-- **The words of a text are its maximal runs.** -/
theorem mem_words_iff {cs w : List Char} : w ∈ words cs ↔ IsRun cs w := by
  refine ⟨(spaced_words cs).isRun, ?_⟩
  rintro ⟨hw, before, after, rfl, hbefore, hafter⟩
  have hrest := Spaced.word isGap_nil hw hafter (spaced_words after)
  have hspaced := (spaced_words before).append hbefore hrest
  rw [List.nil_append, ← List.append_assoc] at hspaced
  rw [← hspaced.eq_words]
  exact List.mem_append_right _ List.mem_cons_self

end Text
end Resemblance
