import Resemblance.Ledger
import Resemblance.Proofs.Entries

/-!
# What one mark does to a ledger

Each of the three marks is described by what it leaves in the three classes of positions, and by
nothing else: the proofs about runs never look inside `addSuspicious`, `addCommon` and
`addProvided` again.

## What is here

* `isCovered_iff`, `admits_iff` — when a suspicious mark is refused.
* `clearReaching_shape` — clearing touches the suspicious positions and the tally only.
* `addSuspicious_of_admits`, `addSuspicious_of_not_admits`, `suspicious_addCommon`,
  `suspicious_addProvided` and their companions — the classes after one mark.
* `recordAll_keeps` — what every mark keeps, every run keeps.
* `Ledger.Valid` — the three classes are disjoint, and a suspicious position holds a fingerprint of
  the submission and at least one place.  Every run keeps this (`valid_recordAll`).
-/

set_option autoImplicit false
namespace Resemblance
namespace Ledger

open Std

/-! ## Windows -/

/-- A position is covered when a common or provided window of the submission starts at it or less
than a window before it. -/
theorem isCovered_iff (l : Ledger) (p : Position) :
    l.isCovered p = true ↔
      ∃ q, (q ∈ l.common ∨ q ∈ l.provided) ∧ 1 ≤ q.toNat ∧ q.toNat ≤ l.submission.size ∧
        q.toNat ≤ p.toNat ∧ p.toNat < q.toNat + l.width := by
  simp only [isCovered, List.any_eq_true, mem_reaching_iff, Bool.or_eq_true,
    ExtTreeSet.contains_iff_mem]
  exact exists_congr fun q => and_comm

theorem admits_iff (l : Ledger) (p : Position) :
    l.admits p = true ↔
      (1 ≤ p.toNat ∧ p.toNat ≤ l.submission.size) ∧ l.isCovered p = false := by
  rw [admits, Bool.and_eq_true, Submission.fingerprintAt?_isSome_iff, Bool.not_eq_true']

/-- A position that a suspicious mark is kept at carries no other mark. -/
theorem unmarked_of_admits {l : Ledger} {p : Position} (hp : l.admits p = true) :
    p ∉ l.common ∧ p ∉ l.provided := by
  obtain ⟨hrange, hcovered⟩ := (admits_iff l p).1 hp
  have := l.width_pos
  rw [← not_or]
  intro hmarked
  rw [(isCovered_iff l p).2 ⟨p, hmarked, hrange.1, hrange.2, Nat.le_refl _, by omega⟩] at hcovered
  exact absurd hcovered (by simp)

/-! ## Clearing -/

theorem clear_shape (l : Ledger) (p : Position) :
    ∃ t, l.clear p = { l with suspicious := l.suspicious.erase p, tally := t } := by
  rw [clear]
  split
  · rename_i h
    exact ⟨l.tally, by rw [erase_eq_self h]⟩
  · exact ⟨_, rfl⟩

/-- Clearing positions touches what is suspicious and the tally, and nothing else. -/
theorem foldl_clear_shape (ps : List Position) (l : Ledger) :
    ∃ t, ps.foldl clear l =
      { l with suspicious := ps.foldl (fun m p => m.erase p) l.suspicious, tally := t } := by
  induction ps generalizing l with
  | nil => exact ⟨l.tally, rfl⟩
  | cons p ps ih =>
    obtain ⟨t, ht⟩ := clear_shape l p
    obtain ⟨t', ht'⟩ := ih (l.clear p)
    refine ⟨t', ?_⟩
    rw [List.foldl_cons, ht', ht]
    rfl

theorem getElem?_foldl_erase {α : Type} (ps : List Position) (m : ExtTreeMap Position α)
    (q : Position) :
    (ps.foldl (fun m p => m.erase p) m)[q]? = if q ∈ ps then none else m[q]? := by
  induction ps generalizing m with
  | nil => simp
  | cons p ps ih =>
    rw [List.foldl_cons, ih, ExtTreeMap.getElem?_erase]
    by_cases hp : p = q
    · simp [hp]
    · simp [hp, Ne.symm hp]

theorem clearReaching_shape (l : Ledger) (p : Position) :
    ∃ t, l.clearReaching p =
      { l with
        suspicious := (l.reaching p).foldl (fun m p => m.erase p) l.suspicious, tally := t } :=
  foldl_clear_shape (l.reaching p) l

@[simp] theorem submission_clearReaching (l : Ledger) (p : Position) :
    (l.clearReaching p).submission = l.submission := by
  obtain ⟨t, h⟩ := clearReaching_shape l p
  rw [h]

@[simp] theorem width_clearReaching (l : Ledger) (p : Position) :
    (l.clearReaching p).width = l.width := by
  obtain ⟨t, h⟩ := clearReaching_shape l p
  rw [h]

@[simp] theorem common_clearReaching (l : Ledger) (p : Position) :
    (l.clearReaching p).common = l.common := by
  obtain ⟨t, h⟩ := clearReaching_shape l p
  rw [h]

@[simp] theorem provided_clearReaching (l : Ledger) (p : Position) :
    (l.clearReaching p).provided = l.provided := by
  obtain ⟨t, h⟩ := clearReaching_shape l p
  rw [h]

/-- Exactly the suspicious positions whose windows reach `p` from the left are cleared. -/
theorem suspicious_clearReaching (l : Ledger) (p q : Position) :
    (l.clearReaching p).suspicious[q]? =
      if q ∈ l.reaching p then none else l.suspicious[q]? := by
  obtain ⟨t, h⟩ := clearReaching_shape l p
  rw [h]
  exact getElem?_foldl_erase _ _ _

/-! ## Suspicious marks -/

theorem addSuspicious_of_not_admits {l : Ledger} {p : Position} (h : l.admits p = false)
    (x : Location) : l.addSuspicious p x = l := by
  rw [addSuspicious]
  split
  · rfl
  · rename_i f hf
    rw [admits, hf, Option.isSome_some, Bool.true_and, Bool.not_eq_false'] at h
    rw [if_pos h]

/-- A suspicious mark that is kept adds its place to the hit of its position. -/
theorem addSuspicious_of_admits {l : Ledger} {p : Position} (h : l.admits p = true) (x : Location) :
    ∃ f, l.submission.fingerprintAt? p = some f ∧
      l.addSuspicious p x =
        { l with
          suspicious := l.suspicious.insert p ((l.hitAt p f).add x)
          tally := if (l.hitAt p f).names x.peer then l.tally else l.tally.add x.peer f } := by
  rw [admits, Bool.and_eq_true, Option.isSome_iff_exists, Bool.not_eq_true'] at h
  obtain ⟨⟨f, hf⟩, hcovered⟩ := h
  refine ⟨f, hf, ?_⟩
  rw [addSuspicious, hf]
  simp only [hcovered, Bool.false_eq_true, if_false]

/-- A suspicious mark touches what is suspicious and the tally, and nothing else. -/
theorem addSuspicious_shape (l : Ledger) (p : Position) (x : Location) :
    ∃ m t, l.addSuspicious p x = { l with suspicious := m, tally := t } := by
  cases h : l.admits p with
  | false => exact ⟨l.suspicious, l.tally, addSuspicious_of_not_admits h x⟩
  | true =>
    obtain ⟨f, -, heq⟩ := addSuspicious_of_admits h x
    exact ⟨_, _, heq⟩

theorem submission_addSuspicious (l : Ledger) (p : Position) (x : Location) :
    (l.addSuspicious p x).submission = l.submission := by
  obtain ⟨m, t, h⟩ := addSuspicious_shape l p x
  rw [h]

theorem width_addSuspicious (l : Ledger) (p : Position) (x : Location) :
    (l.addSuspicious p x).width = l.width := by
  obtain ⟨m, t, h⟩ := addSuspicious_shape l p x
  rw [h]

theorem common_addSuspicious (l : Ledger) (p : Position) (x : Location) :
    (l.addSuspicious p x).common = l.common := by
  obtain ⟨m, t, h⟩ := addSuspicious_shape l p x
  rw [h]

theorem provided_addSuspicious (l : Ledger) (p : Position) (x : Location) :
    (l.addSuspicious p x).provided = l.provided := by
  obtain ⟨m, t, h⟩ := addSuspicious_shape l p x
  rw [h]

/-! ## Common and provided marks -/

theorem provided_addCommon (l : Ledger) (p : Position) : (l.addCommon p).provided = l.provided := by
  rw [addCommon]
  split
  · rfl
  · exact provided_clearReaching l p

theorem mem_common_addCommon (l : Ledger) (p q : Position) :
    q ∈ (l.addCommon p).common ↔ q ∈ l.common ∨ q = p ∧ p ∉ l.provided := by
  rw [addCommon]
  split
  · rename_i h
    rw [ExtTreeSet.contains_iff_mem] at h
    simp [h]
  · rename_i h
    rw [ExtTreeSet.contains_iff_mem] at h
    simp only [common_clearReaching, ExtTreeSet.mem_insert, Std.compare_eq_iff_eq, h,
      not_false_iff, and_true]
    rw [or_comm, eq_comm]

/-- A common mark clears what reaches it, unless its position is provided. -/
theorem suspicious_addCommon (l : Ledger) (p q : Position) :
    (l.addCommon p).suspicious[q]? =
      if p ∉ l.provided ∧ q ∈ l.reaching p then none else l.suspicious[q]? := by
  rw [addCommon]
  split
  · rename_i h
    rw [ExtTreeSet.contains_iff_mem] at h
    simp [h]
  · rename_i h
    rw [ExtTreeSet.contains_iff_mem] at h
    simp only [h, not_false_iff, true_and]
    exact suspicious_clearReaching l p q

theorem mem_common_addProvided (l : Ledger) (p q : Position) :
    q ∈ (l.addProvided p).common ↔ q ∈ l.common ∧ q ≠ p := by
  simp only [addProvided, common_clearReaching, ExtTreeSet.mem_erase, ne_eq, Std.compare_eq_iff_eq]
  rw [and_comm, eq_comm]

theorem mem_provided_addProvided (l : Ledger) (p q : Position) :
    q ∈ (l.addProvided p).provided ↔ q ∈ l.provided ∨ q = p := by
  simp only [addProvided, provided_clearReaching, ExtTreeSet.mem_insert, Std.compare_eq_iff_eq]
  rw [or_comm, eq_comm]

theorem suspicious_addProvided (l : Ledger) (p q : Position) :
    (l.addProvided p).suspicious[q]? =
      if q ∈ l.reaching p then none else l.suspicious[q]? :=
  suspicious_clearReaching l p q

/-! ## Runs -/

/-- What every mark keeps, every run keeps. -/
theorem recordAll_keeps {P : Ledger → Prop} (step : ∀ l mark, P l → P (l.record mark))
    (marks : List Mark) {l : Ledger} (h : P l) : P (l.recordAll marks) := by
  induction marks generalizing l with
  | nil => exact h
  | cons mark marks ih => exact ih (step l mark h)

theorem recordAll_append (l : Ledger) (marks more : List Mark) :
    l.recordAll (marks ++ more) = (l.recordAll marks).recordAll more :=
  List.foldl_append

@[simp] theorem submission_record (l : Ledger) (mark : Mark) :
    (l.record mark).submission = l.submission := by
  cases mark with
  | suspicious p x => exact submission_addSuspicious l p x
  | common p =>
    rw [record, addCommon]
    split
    · rfl
    · exact submission_clearReaching l p
  | provided p => exact submission_clearReaching l p

@[simp] theorem width_record (l : Ledger) (mark : Mark) : (l.record mark).width = l.width := by
  cases mark with
  | suspicious p x => exact width_addSuspicious l p x
  | common p =>
    rw [record, addCommon]
    split
    · rfl
    · exact width_clearReaching l p
  | provided p => exact width_clearReaching l p

@[simp] theorem submission_recordAll (l : Ledger) (marks : List Mark) :
    (l.recordAll marks).submission = l.submission :=
  recordAll_keeps (P := fun m => m.submission = l.submission)
    (fun m mark h => by rw [submission_record, h]) marks rfl

@[simp] theorem width_recordAll (l : Ledger) (marks : List Mark) :
    (l.recordAll marks).width = l.width :=
  recordAll_keeps (P := fun m => m.width = l.width)
    (fun m mark h => by rw [width_record, h]) marks rfl

/-! ## Ledgers that runs lead to -/

/-- No position is in two classes, and a suspicious one has the fingerprint of the submission and a
place. -/
structure Valid (l : Ledger) : Prop where
  /-- The fingerprint of a hit is the one at its position. -/
  fingerprint : ∀ {p : Position} {hit : Hit}, l.suspicious[p]? = some hit →
    l.submission.fingerprintAt? p = some hit.fingerprint
  /-- A hit has a place. -/
  located : ∀ {p : Position} {hit : Hit}, l.suspicious[p]? = some hit → ∃ x, x ∈ hit.locations
  /-- A suspicious position is neither common nor provided. -/
  unmarked : ∀ {p : Position} {hit : Hit}, l.suspicious[p]? = some hit →
    p ∉ l.common ∧ p ∉ l.provided
  /-- A common position is not provided. -/
  disjoint : ∀ {p : Position}, p ∈ l.common → p ∉ l.provided

namespace Valid

variable {l : Ledger}

theorem ofSubmission (s : Submission) (width : Nat) : (Ledger.ofSubmission s width).Valid where
  fingerprint h := by simp [Ledger.ofSubmission] at h
  located h := by simp [Ledger.ofSubmission] at h
  unmarked h := by simp [Ledger.ofSubmission] at h
  disjoint h := by simp [Ledger.ofSubmission] at h

/-- A suspicious position is a position of the submission. -/
theorem inRange (h : l.Valid) {p : Position} {hit : Hit} (hp : l.suspicious[p]? = some hit) :
    1 ≤ p.toNat ∧ p.toNat ≤ l.submission.size := by
  rw [← Submission.fingerprintAt?_isSome_iff, h.fingerprint hp, Option.isSome_some]

theorem unmarked_of_mem (h : l.Valid) {p : Position} (hp : p ∈ l.suspicious) :
    p ∉ l.common ∧ p ∉ l.provided := by
  obtain ⟨hit, hhit⟩ := mem_iff_exists_getElem?.1 hp
  exact h.unmarked hhit

/-- What is suspicious reaches itself, so clearing for `p` clears `p`. -/
theorem mem_reaching_self (h : l.Valid) {p : Position} {hit : Hit}
    (hp : l.suspicious[p]? = some hit) : p ∈ l.reaching p := by
  have := h.inRange hp
  have := l.width_pos
  rw [mem_reaching_iff]
  omega

theorem hitAt_fingerprint (h : l.Valid) {p : Position} {f : Fingerprint}
    (hf : l.submission.fingerprintAt? p = some f) : (l.hitAt p f).fingerprint = f := by
  rw [hitAt]
  cases hp : l.suspicious[p]? with
  | none => rfl
  | some hit =>
    have := h.fingerprint hp
    rw [hf, Option.some_inj] at this
    exact this.symm

theorem addSuspicious (h : l.Valid) (p : Position) (x : Location) : (l.addSuspicious p x).Valid := by
  cases hp : l.admits p with
  | false => rw [addSuspicious_of_not_admits hp]; exact h
  | true =>
    obtain ⟨f, hf, heq⟩ := addSuspicious_of_admits hp x
    -- the only new hit is the one at `p`
    have hnew : ∀ {q : Position} {hit : Hit}, (l.addSuspicious p x).suspicious[q]? = some hit →
        q = p ∧ hit = (l.hitAt p f).add x ∨ l.suspicious[q]? = some hit := by
      intro q hit hq
      simp only [heq, ExtTreeMap.getElem?_insert, Std.compare_eq_iff_eq] at hq
      split at hq
      · rename_i hpq
        exact .inl ⟨hpq.symm, (Option.some_inj.1 hq).symm⟩
      · exact .inr hq
    constructor
    · intro q hit hq
      rw [submission_addSuspicious]
      rcases hnew hq with ⟨rfl, rfl⟩ | hold
      · rw [hf, Hit.add, h.hitAt_fingerprint hf]
      · exact h.fingerprint hold
    · intro q hit hq
      rcases hnew hq with ⟨rfl, rfl⟩ | hold
      · exact ⟨x, ExtTreeSet.mem_insert_self⟩
      · exact h.located hold
    · intro q hit hq
      rw [heq]
      rcases hnew hq with ⟨rfl, rfl⟩ | hold
      · exact unmarked_of_admits hp
      · exact h.unmarked hold
    · rw [heq]
      exact h.disjoint

theorem clearReaching (h : l.Valid) (p : Position) : (l.clearReaching p).Valid := by
  have hold : ∀ {q : Position} {hit : Hit}, (l.clearReaching p).suspicious[q]? = some hit →
      l.suspicious[q]? = some hit := by
    intro q hit hq
    rw [suspicious_clearReaching] at hq
    split at hq
    · exact absurd hq (by simp)
    · exact hq
  constructor
  · intro q hit hq
    rw [submission_clearReaching]
    exact h.fingerprint (hold hq)
  · exact fun hq => h.located (hold hq)
  · intro q hit hq
    rw [common_clearReaching, provided_clearReaching]
    exact h.unmarked (hold hq)
  · rw [common_clearReaching, provided_clearReaching]
    exact h.disjoint

/-- After clearing for `p` the position `p` is not suspicious. -/
theorem ne_of_clearReaching (h : l.Valid) {p q : Position} {hit : Hit}
    (hq : (l.clearReaching p).suspicious[q]? = some hit) : q ≠ p := by
  rintro rfl
  rw [suspicious_clearReaching] at hq
  split at hq
  · exact absurd hq (by simp)
  · rename_i hmem
    exact hmem (h.mem_reaching_self hq)

theorem addCommon (h : l.Valid) (p : Position) : (l.addCommon p).Valid := by
  have hclear := h.clearReaching p
  rw [Ledger.addCommon]
  split
  · exact h
  · rename_i hp
    constructor
    · exact hclear.fingerprint
    · exact hclear.located
    · intro q hit hq
      have hne := h.ne_of_clearReaching hq
      have hunmarked := hclear.unmarked hq
      simp only [ExtTreeSet.mem_insert, Std.compare_eq_iff_eq, not_or]
      exact ⟨⟨hne.symm, hunmarked.1⟩, hunmarked.2⟩
    · intro q hq
      rw [ExtTreeSet.mem_insert, Std.compare_eq_iff_eq] at hq
      rcases hq with rfl | hq
      · rwa [provided_clearReaching, ← ExtTreeSet.contains_iff_mem]
      · exact hclear.disjoint hq

theorem addProvided (h : l.Valid) (p : Position) : (l.addProvided p).Valid := by
  have hclear := h.clearReaching p
  constructor
  · exact hclear.fingerprint
  · exact hclear.located
  · intro q hit hq
    have hne := h.ne_of_clearReaching hq
    have hunmarked := hclear.unmarked hq
    rw [common_clearReaching, provided_clearReaching] at hunmarked
    rw [mem_common_addProvided, mem_provided_addProvided, not_or]
    exact ⟨fun hc => hunmarked.1 hc.1, hunmarked.2, hne⟩
  · intro q hq
    rw [mem_common_addProvided] at hq
    rw [mem_provided_addProvided, not_or]
    exact ⟨h.disjoint hq.1, hq.2⟩

theorem record (h : l.Valid) : ∀ mark, (l.record mark).Valid
  | .suspicious p x => h.addSuspicious p x
  | .common p => h.addCommon p
  | .provided p => h.addProvided p

end Valid

/-- **Every run leads to a valid ledger.** -/
theorem valid_recordAll (s : Submission) (width : Nat) (marks : List Mark) :
    ((ofSubmission s width).recordAll marks).Valid :=
  recordAll_keeps (fun _ mark h => h.record mark) marks (Valid.ofSubmission s width)

end Ledger
end Resemblance
