import Mathlib.Data.List.Forall2
import Mathlib.Data.List.Induction
import Mathlib.Data.Nat.Digits.Defs
import Mathlib.Tactic.IntervalCases
import Resemblance.Text.Numeral

/-!
# What a numeral denotes

A numeral is an optional plus sign and at least one digit, of either case.  It denotes the number
that its digits make up as a positional number, however many of them are leading zeros.

## What is here

* `IsDigit base c d` — the character `c` is the digit of the value `d`.
* `Denotes base w n` — the text `w` is a numeral for the number `n`.
* `unsigned?_eq_some_iff` — reading accepts numerals and nothing else.
* `padded` — a number in digits of either case, with zeros in front; `denotes_padded` says that they
  denote it.
-/

set_option autoImplicit false
namespace Resemblance
namespace Text
namespace Numeral

/-- The digits of lower case, by value. -/
def lowerDigitChars : List Char :=
  "0123456789abcdefghijklmnopqrstuvwxyz".toList

/-- The digits of upper case, by value. -/
def upperDigitChars : List Char :=
  "0123456789ABCDEFGHIJKLMNOPQRSTUVWXYZ".toList

/-- Whether a character is the digit of a value in a base, in either case. -/
def IsDigit (base : Nat) (c : Char) (d : Nat) : Prop :=
  d < base ∧ (lowerDigitChars[d]? = some c ∨ upperDigitChars[d]? = some c)

/-- Whether a text is a numeral for a number: at least one digit, the most significant first, after
at most one plus sign. -/
inductive Denotes (base : Nat) : List Char → Nat → Prop
  | plain {cs : List Char} {ds : List Nat} (hne : ds ≠ [])
      (h : List.Forall₂ (IsDigit base) cs ds) : Denotes base cs (Nat.ofDigits base ds.reverse)
  | plus {cs : List Char} {ds : List Nat} (hne : ds ≠ [])
      (h : List.Forall₂ (IsDigit base) cs ds) :
      Denotes base ('+' :: cs) (Nat.ofDigits base ds.reverse)

/-! ## Digits -/

/-- A character of a range, by its distance from the first one. -/
theorem exists_eq_ofNat_add {a b c : Char} (h : a ≤ c ∧ c ≤ b) :
    ∃ k, c.toNat - a.toNat = k ∧ k ≤ b.toNat - a.toNat ∧ c = Char.ofNat (a.toNat + k) := by
  obtain ⟨hac, hcb⟩ := h
  have hac : a.toNat ≤ c.toNat := hac
  have hcb : c.toNat ≤ b.toNat := hcb
  refine ⟨c.toNat - a.toNat, rfl, by omega, ?_⟩
  rw [Nat.add_sub_cancel' hac, Char.ofNat_toNat]

theorem digitValue?_eq_some_iff {c : Char} {d : Nat} :
    digitValue? c = some d ↔ lowerDigitChars[d]? = some c ∨ upperDigitChars[d]? = some c := by
  refine ⟨fun h => ?_, fun h => ?_⟩
  · unfold digitValue? at h
    split at h
    · obtain ⟨k, hk, hle, rfl⟩ := exists_eq_ofNat_add ‹_›
      rw [hk, Option.some_inj] at h
      subst h
      have hle : k ≤ 9 := hle
      interval_cases k <;> exact .inl rfl
    split at h
    · obtain ⟨k, hk, hle, rfl⟩ := exists_eq_ofNat_add ‹_›
      rw [hk, Option.some_inj] at h
      subst h
      have hle : k ≤ 25 := hle
      interval_cases k <;> exact .inl rfl
    split at h
    · obtain ⟨k, hk, hle, rfl⟩ := exists_eq_ofNat_add ‹_›
      rw [hk, Option.some_inj] at h
      subst h
      have hle : k ≤ 25 := hle
      interval_cases k <;> exact .inr rfl
    · exact absurd h (by simp)
  · have hd : d < 36 := by
      rcases h with h | h
      · exact (List.getElem?_eq_some_iff.1 h).1
      · exact (List.getElem?_eq_some_iff.1 h).1
    interval_cases d <;> rcases h with h | h <;> obtain rfl := Option.some_inj.1 h <;> rfl

theorem digitOf?_eq_some_iff {base d : Nat} {c : Char} :
    digitOf? base c = some d ↔ IsDigit base c d := by
  rw [digitOf?, Option.filter_eq_some_iff, digitValue?_eq_some_iff, IsDigit, decide_eq_true_iff,
    and_comm]

theorem digitsOf?_eq_some_iff {base : Nat} {cs : List Char} {ds : List Nat} :
    digitsOf? base cs = some ds ↔ List.Forall₂ (IsDigit base) cs ds := by
  induction cs generalizing ds with
  | nil => simp [digitsOf?, eq_comm]
  | cons c cs ih =>
    have hcons : digitsOf? base (c :: cs) =
        (digitOf? base c).bind fun d => (digitsOf? base cs).map (d :: ·) := by
      rw [digitsOf?, List.mapM_cons, digitsOf?]
      cases digitOf? base c with
      | none => rfl
      | some d =>
        cases cs.mapM (digitOf? base) with
        | none => rfl
        | some ds => rfl
    rw [hcons, List.forall₂_cons_left_iff]
    simp only [Option.bind_eq_some_iff, Option.map_eq_some_iff, digitOf?_eq_some_iff, ih]
    refine ⟨?_, ?_⟩
    · rintro ⟨d, hd, rest, hrest, rfl⟩
      exact ⟨d, rest, hd, hrest, rfl⟩
    · rintro ⟨d, rest, hd, hrest, rfl⟩
      exact ⟨d, hd, rest, hrest, rfl⟩

theorem valueOf_eq (base : Nat) (ds : List Nat) :
    valueOf base ds = Nat.ofDigits base ds.reverse := by
  induction ds using List.reverseRecOn with
  | nil => rfl
  | append_singleton ds d ih =>
    rw [valueOf_append_singleton, ih, List.reverse_append, List.reverse_singleton,
      List.singleton_append, Nat.ofDigits_cons, Nat.add_comm]

/-! ## Numerals -/

theorem not_isDigit_plus (base d : Nat) : ¬IsDigit base '+' d := by
  rw [← digitOf?_eq_some_iff]
  simp [digitOf?, digitValue?]

/-- **Reading accepts numerals and nothing else**, and gives the number that they denote. -/
theorem unsigned?_eq_some_iff {base : Nat} {w : List Char} {n : Nat} :
    unsigned? base w = some n ↔ Denotes base w n := by
  refine ⟨fun h => ?_, fun h => ?_⟩
  · unfold unsigned? at h
    split at h
    · rename_i d ds hdigits
      obtain rfl := Option.some_inj.1 h
      rw [digitsOf?_eq_some_iff] at hdigits
      rw [valueOf_eq]
      unfold dropPlus at hdigits
      split at hdigits
      · exact .plus (List.cons_ne_nil d ds) hdigits
      · exact .plain (List.cons_ne_nil d ds) hdigits
    · exact absurd h (by simp)
  · cases h with
    | @plain cs ds hne h =>
      obtain ⟨d, ds, rfl⟩ := List.exists_cons_of_ne_nil hne
      have hplain : dropPlus w = w := by
        unfold dropPlus
        split
        · cases h with
          | cons hd _ => exact absurd hd (not_isDigit_plus base d)
        · rfl
      rw [unsigned?, hplain, digitsOf?_eq_some_iff.2 h]
      exact congrArg some (valueOf_eq base _)
    | @plus cs ds hne h =>
      obtain ⟨d, ds, rfl⟩ := List.exists_cons_of_ne_nil hne
      rw [unsigned?, dropPlus, digitsOf?_eq_some_iff.2 h]
      exact congrArg some (valueOf_eq base _)

/-! ## Writing -/

theorem isDigit_digitChar {base d : Nat} (hbase : base ≤ 16) (h : d < base) :
    IsDigit base (Nat.digitChar d) d ∧ IsDigit base (Nat.digitChar d).toUpper d := by
  have hd : d < 16 := by omega
  refine ⟨⟨h, .inl ?_⟩, ⟨h, .inr ?_⟩⟩
  · clear h
    interval_cases d <;> rfl
  · clear h
    interval_cases d <;> rfl

/-- The digits of a number. -/
theorem exists_toDigits {base : Nat} (hbase : 1 < base) (n : Nat) :
    ∃ ds, ds ≠ [] ∧ (∀ d ∈ ds, d < base) ∧ Nat.toDigits base n = ds.map Nat.digitChar ∧
      Nat.ofDigits base ds.reverse = n := by
  induction n using Nat.strongRecOn with
  | ind n ih =>
    rw [Nat.toDigits_eq_if hbase]
    by_cases hn : n < base
    · refine ⟨[n], List.cons_ne_nil _ _, by simpa using hn, by rw [if_pos hn]; rfl, ?_⟩
      simp
    · have hlt : n / base < n := Nat.div_lt_self (by omega) hbase
      obtain ⟨ds, hne, hsmall, hdigits, hvalue⟩ := ih (n / base) hlt
      refine ⟨ds ++ [n % base], by simp, ?_, ?_, ?_⟩
      · rw [List.forall_mem_append]
        exact ⟨hsmall, List.forall_mem_singleton.2 (Nat.mod_lt n (by omega))⟩
      · rw [if_neg hn, hdigits, List.map_append]
        rfl
      · rw [List.reverse_append, List.reverse_singleton, List.singleton_append, Nat.ofDigits_cons,
          hvalue]
        exact Nat.mod_add_div n base

/-- A number in digits of lower or upper case, filled up with zeros to a least number of digits. -/
def padded (base width : Nat) (upper : Bool) (n : Nat) : List Char :=
  let digits := (lowerDigits base n).toList
  List.replicate (width - digits.length) '0' ++ if upper then digits.map Char.toUpper else digits

/-- **A number that is written in digits is denoted by them**, whatever their case and however many
zeros stand in front. -/
theorem denotes_padded {base : Nat} (h : 1 < base) (hbase : base ≤ 16) (width : Nat) (upper : Bool)
    (n : Nat) : Denotes base (padded base width upper n) n := by
  obtain ⟨ds, hne, hsmall, hdigits, hvalue⟩ := exists_toDigits h n
  have hzero : IsDigit base '0' 0 := (isDigit_digitChar hbase (by omega)).1
  have hwritten : List.Forall₂ (IsDigit base)
      (if upper then (Nat.toDigits base n).map Char.toUpper else Nat.toDigits base n) ds := by
    rw [hdigits]
    cases upper with
    | false =>
      simp only [Bool.false_eq_true, if_false, List.forall₂_map_left_iff, List.forall₂_same]
      exact fun d hd => (isDigit_digitChar hbase (hsmall d hd)).1
    | true =>
      simp only [if_true, List.map_map, List.forall₂_map_left_iff, List.forall₂_same]
      exact fun d hd => (isDigit_digitChar hbase (hsmall d hd)).2
  have hzeros : ∀ k, List.Forall₂ (IsDigit base) (List.replicate k '0') (List.replicate k 0) := by
    intro k
    induction k with
    | zero => exact .nil
    | succ k ih => exact .cons hzero ih
  have hall := Denotes.plain (by simp [hne])
    (List.rel_append (hzeros (width - (Nat.toDigits base n).length)) hwritten)
  rw [List.reverse_append, List.reverse_replicate, Nat.ofDigits_append_replicate_zero,
    hvalue] at hall
  rw [padded, lowerDigits, String.toList_ofList]
  exact hall

end Numeral
end Text
end Resemblance
