/-!
# Attempts

What is known of a computation that may fail, once it is known that it did not: each of its steps
succeeded (`bind_eq_ok_iff`, `map_eq_ok_iff`), what a list of tasks yields, one of the tasks yields
(`exists_of_mem_mapM`), and each of them yields something (`exists_mem_of_mapM`).  When it failed,
one of its steps did (`bind_eq_error_iff`), and so did one of a list of tasks
(`exists_of_mapM_eq_error`): the first that did not succeed (`mapM_eq_error_iff`).  Tasks that are
the same on the items of a list yield the same (`mapM_congr`).  That a computation succeeded can be
read off its result as an option (`toOption_eq_some_iff`), which is easier to compute.
-/

set_option autoImplicit false
namespace Resemblance

variable {ε α β : Type}

theorem bind_eq_ok_iff {x : Except ε α} {f : α → Except ε β} {b : β} :
    x >>= f = .ok b ↔ ∃ a, x = .ok a ∧ f a = .ok b := by
  cases x with
  | error e => simp [bind, Except.bind]
  | ok a => simp [bind, Except.bind]

theorem bind_eq_error_iff {x : Except ε α} {f : α → Except ε β} {e : ε} :
    x >>= f = .error e ↔ x = .error e ∨ ∃ a, x = .ok a ∧ f a = .error e := by
  cases x with
  | error e' => simp [bind, Except.bind]
  | ok a => simp [bind, Except.bind]

theorem map_eq_ok_iff {x : Except ε α} {f : α → β} {b : β} :
    x.map f = .ok b ↔ ∃ a, x = .ok a ∧ f a = b := by
  cases x <;> simp [Except.map]

theorem map_eq_error_iff {x : Except ε α} {f : α → β} {e : ε} :
    x.map f = .error e ↔ x = .error e := by
  cases x <;> simp [Except.map]

theorem mapError_eq_ok_iff {ε' : Type} {x : Except ε α} {f : ε → ε'} {a : α} :
    x.mapError f = .ok a ↔ x = .ok a := by
  cases x with
  | error e => exact ⟨nofun, nofun⟩
  | ok b => exact ⟨fun h => by cases h; rfl, fun h => by cases h; rfl⟩

theorem mapError_eq_error_iff {ε' : Type} {x : Except ε α} {f : ε → ε'} {e : ε'} :
    x.mapError f = .error e ↔ ∃ e', e = f e' ∧ x = .error e' := by
  cases x with
  | error e' =>
    refine ⟨fun h => ?_, ?_⟩
    · cases h
      exact ⟨e', rfl, rfl⟩
    · rintro ⟨_, rfl, h⟩
      cases h
      rfl
  | ok b => exact ⟨nofun, nofun⟩

theorem toOption_eq_some_iff {x : Except ε α} {a : α} : x.toOption = some a ↔ x = .ok a := by
  cases x <;> simp [Except.toOption]

theorem mapM_congr {task task' : α → Except ε β} :
    ∀ {as : List α}, (∀ a ∈ as, task a = task' a) → as.mapM task = as.mapM task'
  | [], _ => rfl
  | a :: as, h => by
    rw [List.mapM_cons, List.mapM_cons, h a List.mem_cons_self,
      mapM_congr fun x hx => h x (List.mem_cons_of_mem a hx)]

theorem exists_of_mem_mapM {task : α → Except ε β} {as : List α} {bs : List β}
    (h : as.mapM task = .ok bs) {b : β} (hb : b ∈ bs) : ∃ a ∈ as, task a = .ok b := by
  induction as generalizing bs with
  | nil =>
    cases h
    exact absurd hb List.not_mem_nil
  | cons a as ih =>
    rw [List.mapM_cons, bind_eq_ok_iff] at h
    obtain ⟨c, ha, h⟩ := h
    obtain ⟨cs, has, h⟩ := bind_eq_ok_iff.1 h
    cases h
    rcases List.mem_cons.1 hb with rfl | hb
    · exact ⟨a, List.mem_cons_self, ha⟩
    · obtain ⟨a', ha', heq⟩ := ih has hb
      exact ⟨a', List.mem_cons_of_mem a ha', heq⟩

theorem exists_mem_of_mapM {task : α → Except ε β} {as : List α} {bs : List β}
    (h : as.mapM task = .ok bs) {a : α} (ha : a ∈ as) : ∃ b ∈ bs, task a = .ok b := by
  induction as generalizing bs with
  | nil => exact absurd ha List.not_mem_nil
  | cons c as ih =>
    rw [List.mapM_cons, bind_eq_ok_iff] at h
    obtain ⟨d, hc, h⟩ := h
    obtain ⟨ds, has, h⟩ := bind_eq_ok_iff.1 h
    cases h
    rcases List.mem_cons.1 ha with rfl | ha
    · exact ⟨d, List.mem_cons_self, hc⟩
    · obtain ⟨b, hb, heq⟩ := ih has ha
      exact ⟨b, List.mem_cons_of_mem d hb, heq⟩

theorem exists_of_mapM_eq_error {task : α → Except ε β} {as : List α} {e : ε}
    (h : as.mapM task = .error e) : ∃ a ∈ as, task a = .error e := by
  induction as with
  | nil => cases h
  | cons a as ih =>
    rw [List.mapM_cons] at h
    rcases bind_eq_error_iff.1 h with ha | ⟨b, -, h⟩
    · exact ⟨a, List.mem_cons_self, ha⟩
    rcases bind_eq_error_iff.1 h with has | ⟨bs, -, h⟩
    · obtain ⟨a', ha', heq⟩ := ih has
      exact ⟨a', List.mem_cons_of_mem a ha', heq⟩
    · cases h

theorem exists_mapM_iff {task : α → Except ε β} {as : List α} :
    (∃ bs, as.mapM task = .ok bs) ↔ ∀ a ∈ as, ∃ b, task a = .ok b := by
  constructor
  · rintro ⟨bs, hbs⟩ a ha
    obtain ⟨b, -, hb⟩ := exists_mem_of_mapM hbs ha
    exact ⟨b, hb⟩
  · intro h
    cases hresult : as.mapM task with
    | ok bs => exact ⟨bs, rfl⟩
    | error e =>
      obtain ⟨a, ha, herror⟩ := exists_of_mapM_eq_error hresult
      obtain ⟨b, hb⟩ := h a ha
      cases hb.symm.trans herror

theorem mapM_cons_eq_error_iff {task : α → Except ε β} {a : α} {as : List α} {e : ε} :
    (a :: as).mapM task = .error e ↔
      task a = .error e ∨ (∃ b, task a = .ok b) ∧ as.mapM task = .error e := by
  have hpure : ∀ (b : β) (bs : List β), (pure (b :: bs) : Except ε (List β)) ≠ .error e :=
    fun b bs h => by cases h
  rw [List.mapM_cons]
  simp only [bind_eq_error_iff, hpure, and_false, exists_false, or_false, exists_and_right]

/-- A list of tasks fails as the first of them does that fails. -/
theorem mapM_eq_error_iff {task : α → Except ε β} {as : List α} {e : ε} :
    as.mapM task = .error e ↔
      ∃ before a after, as = before ++ a :: after ∧ (∀ x ∈ before, ∃ b, task x = .ok b) ∧
        task a = .error e := by
  induction as with
  | nil =>
    constructor
    · intro h
      cases h
    · rintro ⟨before, a, after, heq, -⟩
      exact absurd heq.symm (by simp)
  | cons a as ih =>
    rw [mapM_cons_eq_error_iff, ih]
    constructor
    · rintro (ha | ⟨hok, before, x, after, rfl, hbefore, hx⟩)
      · exact ⟨[], a, as, rfl, fun x hx => absurd hx List.not_mem_nil, ha⟩
      · exact ⟨a :: before, x, after, rfl, List.forall_mem_cons.2 ⟨hok, hbefore⟩, hx⟩
    · rintro ⟨before, x, after, heq, hbefore, hx⟩
      cases before with
      | nil =>
        obtain ⟨rfl, rfl⟩ := List.cons.inj heq
        exact .inl hx
      | cons y before =>
        obtain ⟨rfl, rfl⟩ := List.cons.inj heq
        obtain ⟨hok, hbefore⟩ := List.forall_mem_cons.1 hbefore
        exact .inr ⟨hok, before, x, after, rfl, hbefore, hx⟩

end Resemblance
