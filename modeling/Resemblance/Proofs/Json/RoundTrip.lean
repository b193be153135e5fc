import Resemblance.Proofs.Json.Literals

/-!
# Values that are read back

A value made of natural numbers, strings, arrays and objects is printed as a text from which the
reader gets the same value.  The reader is bounded in its steps, and twice the length of the text is
enough: every item and member takes a character of its own besides the value in it.

## What is here

* `Written` — the values in question.
* `Reads` — a value is read back at any level of indentation and before anything that may follow.
* `readItems?_print`, `readMembers?_print` — the insides of arrays and objects.
* `parse?_pretty` — a written value is the value of its text.
-/

set_option autoImplicit false
namespace Resemblance
namespace Json

/-- A member under a proper name. -/
def named (member : String × Value) : Text × Value :=
  (.ofString member.1, member.2)

/-- The values made of natural numbers, strings, arrays and objects. -/
inductive Written : Value → Prop
  | number (n : Nat) : Written (.number (.ofNat n))
  | string (s : String) : Written (.string (.ofString s))
  | array {items : List Value} (h : ∀ item ∈ items, Written item) : Written (.array items)
  | object {members : List (String × Value)} (h : ∀ member ∈ members, Written member.2) :
      Written (.object (members.map named))

/-- Whether a value is read back, whatever follows it. -/
def Reads (v : Value) : Prop :=
  ∀ {level steps : Nat} {rest : List Char}, Follows rest →
    2 * (printValue level v).length ≤ steps →
      readValue? steps (printValue level v ++ rest) = some (v, rest)

/-! ## Spaces -/

theorem skipSpaces_lineAt (level : Nat) (cs : List Char) :
    skipSpaces (lineAt level ++ cs) = skipSpaces cs := by
  have hspace : ∀ c ∈ lineAt level, isSpace c = true := by
    intro c hc
    rcases List.mem_cons.1 hc with rfl | hc
    · rfl
    · rw [List.eq_of_mem_replicate hc]
      rfl
  exact List.dropWhile_append_of_pos hspace

theorem skipSpaces_cons {c : Char} (hc : isSpace c = false) (cs : List Char) :
    skipSpaces (c :: cs) = c :: cs := by
  rw [skipSpaces, List.dropWhile_cons, hc, if_neg (by decide)]

/-- Spaces before a value do not matter. -/
theorem readValue?_congr {cs cs' : List Char} (h : skipSpaces cs = skipSpaces cs') (steps : Nat) :
    readValue? steps cs = readValue? steps cs' := by
  cases steps with
  | zero => rfl
  | succ steps =>
    unfold readValue?
    rw [h]

theorem readItems?_lineAt (level steps : Nat) (cs : List Char) :
    readItems? steps (lineAt level ++ cs) = readItems? steps cs := by
  cases steps with
  | zero => rfl
  | succ steps => rw [readItems?, readItems?, readValue?_congr (skipSpaces_lineAt level cs)]

theorem readMembers?_lineAt (level steps : Nat) (cs : List Char) :
    readMembers? steps (lineAt level ++ cs) = readMembers? steps cs := by
  cases steps with
  | zero => rfl
  | succ steps => rw [readMembers?, readMembers?, skipSpaces_lineAt]

theorem follows_lineAt (level : Nat) (cs : List Char) : Follows (lineAt level ++ cs) :=
  .inr rfl

theorem follows_comma (cs : List Char) : Follows (',' :: cs) :=
  .inl rfl

/-! ## Arrays -/

/-- The items of an array are read back when each of them is. -/
theorem readItems?_print (outer level : Nat) (rest : List Char) :
    ∀ {items : List Value} {item : Value} {steps : Nat}, Reads item → (∀ x ∈ items, Reads x) →
      2 * ((printValue level item).length + (printItems level items).length) < steps →
        readItems? steps (printValue level item ++ (printItems level items ++
          (lineAt outer ++ ']' :: rest))) = some (item :: items, rest)
  | [], item, steps + 1, hitem, _, hsteps => by
    show readItems? (steps + 1) (printValue level item ++ (lineAt outer ++ ']' :: rest)) = _
    rw [readItems?, hitem (follows_lineAt outer _) (by omega)]
    simp only [skipSpaces_lineAt, skipSpaces_cons (c := ']') rfl]
  | x :: xs, item, steps + 1, hitem, hitems, hsteps => by
    obtain ⟨hx, hxs⟩ := List.forall_mem_cons.1 hitems
    simp only [printItems, List.length_cons, List.length_append] at hsteps
    simp only [printItems, List.cons_append, List.append_assoc]
    rw [readItems?, hitem (follows_comma _) (by omega)]
    simp only [skipSpaces_cons (c := ',') rfl, readItems?_lineAt]
    rw [readItems?_print outer level rest hx hxs (by omega)]
    rfl

/-! ## Objects -/

theorem skipSpaces_space (cs : List Char) : skipSpaces (' ' :: cs) = skipSpaces cs := by
  rw [skipSpaces, List.dropWhile_cons, if_pos (by decide)]
  rfl

section Member

variable {key : String} {value : Value} {steps : Nat} {cs tail rest : List Char}
  (hvalue : readValue? steps cs = some (value, tail))

include hvalue

/-- The last member of an object. -/
theorem readMembers?_last (htail : skipSpaces tail = '\x7d' :: rest) :
    readMembers? (steps + 1) (printString (.ofString key) ++ ':' :: ' ' :: cs) =
      some ([(.ofString key, value)], rest) := by
  obtain ⟨text, hprint, hread⟩ := readString?_printString key (':' :: ' ' :: cs)
  rw [hprint, readMembers?.eq_def]
  simp only [List.cons_append, skipSpaces_cons (c := '"') rfl, hread,
    skipSpaces_cons (c := ':') rfl, readValue?_congr (skipSpaces_space cs), hvalue, htail]

/-- A member that is followed by others. -/
theorem readMembers?_more (htail : skipSpaces tail = ',' :: rest) :
    readMembers? (steps + 1) (printString (.ofString key) ++ ':' :: ' ' :: cs) =
      (readMembers? steps rest).map fun read => ((.ofString key, value) :: read.1, read.2) := by
  obtain ⟨text, hprint, hread⟩ := readString?_printString key (':' :: ' ' :: cs)
  rw [hprint, readMembers?.eq_def]
  simp only [List.cons_append, skipSpaces_cons (c := '"') rfl, hread,
    skipSpaces_cons (c := ':') rfl, readValue?_congr (skipSpaces_space cs), hvalue, htail]

end Member

/-- The members of an object are read back when each of them is. -/
theorem readMembers?_print (outer level : Nat) (rest : List Char) :
    ∀ {members : List (String × Value)} (key : String) {value : Value} {steps : Nat}, Reads value →
      (∀ member ∈ members, Reads member.2) →
        2 * ((printValue level value).length +
          (printMembers level (members.map named)).length) < steps →
            readMembers? steps (printString (.ofString key) ++ ':' :: ' ' :: (printValue level value ++
              (printMembers level (members.map named) ++ (lineAt outer ++ '\x7d' :: rest)))) =
                some (((key, value) :: members).map named, rest)
  | [], key, value, steps + 1, hvalue, _, hsteps => by
    show readMembers? (steps + 1) (_ ++ ':' :: ' ' :: (printValue level value ++
      (lineAt outer ++ '\x7d' :: rest))) = _
    refine readMembers?_last (hvalue (follows_lineAt outer _) (by omega)) ?_
    rw [skipSpaces_lineAt, skipSpaces_cons rfl]
  | (key', value') :: members, key, value, steps + 1, hvalue, hmembers, hsteps => by
    have hvalue' : Reads value' := hmembers (key', value') List.mem_cons_self
    have hmembers' : ∀ member ∈ members, Reads member.2 := fun member hmember =>
      hmembers member (List.mem_cons_of_mem _ hmember)
    simp only [List.map_cons, named, printMembers, List.length_cons, List.length_append] at hsteps
    simp only [List.map_cons, named, printMembers, List.cons_append, List.append_assoc,
      List.nil_append]
    rw [readMembers?_more (hvalue (follows_comma _) (by omega)) (skipSpaces_cons rfl _),
      readMembers?_lineAt, readMembers?_print outer level rest key' hvalue' hmembers' (by omega)]
    rfl

/-! ## Values -/

/-- The text of a value begins neither with a space nor as the end of an array. -/
theorem exists_printValue_eq {v : Value} (h : Written v) (level : Nat) :
    ∃ c cs, printValue level v = c :: cs ∧ isSpace c = false ∧ c ≠ ']' := by
  cases h with
  | number n =>
    obtain ⟨c, cs, hprint, hdigit⟩ := exists_printNumber_eq n
    refine ⟨c, cs, by rw [printValue, hprint], isSpace_of_isDigit hdigit, ?_⟩
    rintro rfl
    exact absurd hdigit (by decide)
  | string s => exact ⟨'"', _, rfl, rfl, by decide⟩
  | @array items =>
    cases items with
    | nil => exact ⟨'[', _, rfl, rfl, by decide⟩
    | cons item items => exact ⟨'[', _, rfl, rfl, by decide⟩
  | @object members =>
    cases members with
    | nil => exact ⟨'\x7b', _, rfl, rfl, by decide⟩
    | cons member members => exact ⟨'\x7b', _, rfl, rfl, by decide⟩

/-- What begins with a digit is read as a number. -/
theorem readValue?_of_isDigit {c : Char} (hc : isDigit c = true) (steps : Nat) (cs : List Char) :
    readValue? (steps + 1) (c :: cs) =
      (readNumber? (c :: cs)).map fun read => (.number read.1, read.2) := by
  unfold readValue?
  rw [skipSpaces_cons (isSpace_of_isDigit hc)]
  split
  case h_7 => rfl
  -- the other patterns begin with another character
  all_goals
    rename_i heq
    rw [(List.cons.inj heq).1] at hc
    exact absurd hc (by decide)

/-- An array that is not empty. -/
theorem readValue?_array {c : Char} (hspace : isSpace c = false) (hc : c ≠ ']') (level steps : Nat)
    (cs : List Char) :
    readValue? (steps + 1) ('[' :: (lineAt level ++ c :: cs)) =
      (readItems? steps (c :: cs)).map fun read => (.array read.1, read.2) := by
  unfold readValue?
  simp only [skipSpaces_cons (c := '[') rfl, skipSpaces_lineAt, skipSpaces_cons hspace]
  split
  · rename_i heq
    exact absurd (List.cons.inj heq).1 hc
  · rfl

/-- An object that is not empty. -/
theorem readValue?_object (level steps : Nat) (cs : List Char) :
    readValue? (steps + 1) ('\x7b' :: (lineAt level ++ '"' :: cs)) =
      (readMembers? steps ('"' :: cs)).map fun read => (.object read.1, read.2) := by
  unfold readValue?
  simp only [skipSpaces_cons (c := '\x7b') rfl, skipSpaces_lineAt, skipSpaces_cons (c := '"') rfl]
  rfl

/-- Reading a value takes at least one step. -/
theorem exists_eq_succ {v : Value} (h : Written v) {level steps : Nat}
    (hsteps : 2 * (printValue level v).length ≤ steps) : ∃ k, steps = k + 1 := by
  obtain ⟨_, _, hbegin, -, -⟩ := exists_printValue_eq h level
  rw [hbegin, List.length_cons] at hsteps
  exact ⟨steps - 1, by omega⟩

/-- **Written values are read back.** -/
theorem reads_of_written {v : Value} (h : Written v) : Reads v := by
  induction h with
  | number n =>
    intro level steps rest hrest hsteps
    obtain ⟨steps, rfl⟩ := exists_eq_succ (.number n) hsteps
    obtain ⟨c, cs, hprint, hdigit⟩ := exists_printNumber_eq n
    have hread := readNumber?_printNumber n hrest
    rw [hprint, List.cons_append] at hread
    rw [printValue, hprint, List.cons_append, readValue?_of_isDigit hdigit, hread]
    rfl
  | string s =>
    intro level steps rest _ hsteps
    obtain ⟨steps, rfl⟩ := exists_eq_succ (.string s) hsteps
    obtain ⟨cs, hprint, hread⟩ := readString?_printString s rest
    rw [printValue, hprint, List.cons_append, readValue?.eq_def]
    simp only [skipSpaces_cons (c := '"') rfl, hread]
    rfl
  | @array items hitems ih =>
    intro level steps rest _ hsteps
    obtain ⟨steps, rfl⟩ := exists_eq_succ (.array hitems) hsteps
    cases items with
    | nil => rfl
    | cons item items =>
      obtain ⟨hitem, hitems'⟩ := List.forall_mem_cons.1 ih
      obtain ⟨c, cs, hbegin, hspace, hc⟩ :=
        exists_printValue_eq (hitems item List.mem_cons_self) (level + 1)
      simp only [printValue, List.length_cons, List.length_append] at hsteps
      have hrest : 2 * ((printValue (level + 1) item).length +
          (printItems (level + 1) items).length) < steps := by omega
      have hread := readItems?_print level (level + 1) rest hitem hitems' hrest
      simp only [printValue, List.cons_append, List.append_assoc, List.nil_append]
      rw [hbegin, List.cons_append] at hread ⊢
      rw [readValue?_array hspace hc, hread]
      rfl
  | @object members hmembers ih =>
    intro level steps rest _ hsteps
    obtain ⟨steps, rfl⟩ := exists_eq_succ (.object hmembers) hsteps
    cases members with
    | nil => rfl
    | cons member members =>
      obtain ⟨key, value⟩ := member
      have hvalue : Reads value := ih (key, value) List.mem_cons_self
      have hmembers' : ∀ member ∈ members, Reads member.2 := fun member hmember =>
        ih member (List.mem_cons_of_mem _ hmember)
      simp only [List.map_cons, named, printValue, List.length_cons, List.length_append] at hsteps
      have hrest : 2 * ((printValue (level + 1) value).length +
          (printMembers (level + 1) (members.map named)).length) < steps := by omega
      have hread := readMembers?_print level (level + 1) rest key hvalue hmembers' hrest
      obtain ⟨cs, hprint, -⟩ := readString?_printString key []
      simp only [List.map_cons, named, printValue, List.cons_append, List.append_assoc,
        List.nil_append]
      rw [hprint, List.cons_append] at hread ⊢
      rw [readValue?_object, hread]
      rfl

/-- **A written value is the value of its text.** -/
theorem parse?_pretty {v : Value} (h : Written v) : parse? (pretty v) = some v := by
  have hread : readValue? (2 * (printValue 0 v).length + 2) (printValue 0 v ++ []) = some (v, []) :=
    reads_of_written h trivial (by omega)
  rw [List.append_nil] at hread
  rw [parse?, pretty, String.toList_ofList]
  simp only [hread]
  rfl

end Json
end Resemblance
