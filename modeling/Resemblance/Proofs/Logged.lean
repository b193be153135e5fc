import Mathlib.Data.List.Forall2
import Resemblance.Notice
import Resemblance.Proofs.Attempt

/-!
# Chains of steps that log

A chain of steps ends well when each step does, and what it logs before a fault does not matter for
that: its result is a chain of the results (`result_bind`, `result_each`).  So the results of a
chain are told by those of its steps: one after another (`bind_eq_ok_iff`), and item by item for a
list of them (`each_eq_ok_iff`).  When no step can fail with a fault of some kind, the chain cannot
either (`FailsOnlyWith`).

The fault of a list of steps is that of the first one that fails (`each_eq_error_iff`), and what is
logged comes from the steps up to this one (`notices_each_of_ok`, `notices_each_of_error`).  For
both it does not matter how the list is grouped: this is told by the `outline` of a step, which
forgets its value (`outline_each_flatMap`).
-/

set_option autoImplicit false
namespace Resemblance

variable {ε α β : Type}

theorem mapM_eq_ok_iff {task : α → Except ε β} :
    ∀ {as : List α} {bs : List β},
      as.mapM task = .ok bs ↔ List.Forall₂ (fun a b => task a = .ok b) as bs
  | [], bs => by
    rw [List.mapM_nil, List.forall₂_nil_left_iff]
    exact Except.ok.injEq [] bs ▸ eq_comm
  | a :: as, bs => by
    rw [List.mapM_cons, List.forall₂_cons_left_iff, Resemblance.bind_eq_ok_iff]
    simp only [Resemblance.bind_eq_ok_iff, mapM_eq_ok_iff]
    constructor
    · rintro ⟨b, hb, rest, hrest, heq⟩
      cases heq
      exact ⟨b, rest, hb, hrest, rfl⟩
    · rintro ⟨b, rest, hb, hrest, rfl⟩
      exact ⟨b, hb, rest, hrest, rfl⟩

namespace Logged

/-! ## One step after another -/

theorem result_ofExcept (result : Except Fault α) : (ofExcept result).result = result := rfl

theorem result_bind (x : Logged α) (g : α → Logged β) :
    (x >>= g).result = x.result >>= fun a => (g a).result := by
  show (x.andThen g).result = _
  rw [andThen]
  cases x.result <;> rfl

theorem result_each (f : α → Logged β) (as : List α) :
    (each f as).result = as.mapM fun a => (f a).result := by
  induction as with
  | nil => rfl
  | cons a as ih =>
    have hcons : each f (a :: as) =
        (f a >>= fun b => each f as >>= fun bs => (pure (b :: bs) : Logged (List β))) := rfl
    rw [hcons, List.mapM_cons, result_bind]
    refine congrArg ((f a).result >>= ·) (funext fun b => ?_)
    rw [result_bind, ih]
    rfl

theorem bind_eq_ok_iff {x : Logged α} {f : α → Logged β} {b : β} :
    (x >>= f).result = .ok b ↔ ∃ a, x.result = .ok a ∧ (f a).result = .ok b := by
  rw [result_bind, Resemblance.bind_eq_ok_iff]

theorem bind_eq_error_iff {x : Logged α} {f : α → Logged β} {fault : Fault} :
    (x >>= f).result = .error fault ↔
      x.result = .error fault ∨ ∃ a, x.result = .ok a ∧ (f a).result = .error fault := by
  rw [result_bind, Resemblance.bind_eq_error_iff]

theorem pure_eq_ok_iff {a b : α} : (pure a : Logged α).result = .ok b ↔ a = b :=
  Except.ok.injEq a b ▸ Iff.rfl

/-- What a step does when the one before it fails is of no account. -/
theorem bind_congr {x : Logged α} {f g : α → Logged β} (h : ∀ a, x.result = .ok a → f a = g a) :
    x >>= f = x >>= g := by
  show x.andThen f = x.andThen g
  rw [andThen, andThen]
  cases hx : x.result with
  | error fault => rfl
  | ok a => simp only [h a hx]

theorem each_congr {f g : α → Logged β} :
    ∀ {as : List α}, (∀ a ∈ as, f a = g a) → each f as = each g as
  | [], _ => rfl
  | a :: as, h => by
    rw [each, each, h a List.mem_cons_self,
      each_congr fun x hx => h x (List.mem_cons_of_mem a hx)]

theorem each_eq_ok_iff {f : α → Logged β} {as : List α} {bs : List β} :
    (each f as).result = .ok bs ↔ List.Forall₂ (fun a b => (f a).result = .ok b) as bs := by
  rw [result_each]
  exact mapM_eq_ok_iff

/-! ## Kinds of faults -/

variable {P : Fault → Prop}

/-- Whether a step can fail with faults of a kind only. -/
def FailsOnlyWith (P : Fault → Prop) (x : Logged α) : Prop :=
  ∀ fault, x.result = .error fault → P fault

theorem FailsOnlyWith.pure (a : α) : FailsOnlyWith P (pure a : Logged α) := by
  intro fault h
  exact absurd h (by simp [Pure.pure, done])

theorem FailsOnlyWith.ofExcept {result : Except Fault α}
    (h : ∀ fault, result = .error fault → P fault) : FailsOnlyWith P (.ofExcept result) :=
  h

theorem FailsOnlyWith.bind {x : Logged α} {f : α → Logged β} (hx : FailsOnlyWith P x)
    (hf : ∀ a, x.result = .ok a → FailsOnlyWith P (f a)) : FailsOnlyWith P (x >>= f) := by
  intro fault h
  rcases bind_eq_error_iff.1 h with h | ⟨a, hresult, h⟩
  · exact hx fault h
  · exact hf a hresult fault h

theorem FailsOnlyWith.each {f : α → Logged β} {as : List α}
    (h : ∀ a ∈ as, FailsOnlyWith P (f a)) : FailsOnlyWith P (each f as) := by
  induction as with
  | nil => exact .pure []
  | cons a as ih =>
    refine (h a List.mem_cons_self).bind fun b _ => ?_
    refine (ih fun x hx => h x (List.mem_cons_of_mem a hx)).bind fun bs _ => ?_
    exact .pure (b :: bs)

end Logged

/-! ## Results item by item -/

variable {α β : Type} {R : α → β → Prop}

theorem exists_of_forall₂ {as : List α} {bs : List β} (h : List.Forall₂ R as bs) {b : β}
    (hb : b ∈ bs) : ∃ a ∈ as, R a b := by
  induction h with
  | nil => exact absurd hb List.not_mem_nil
  | cons hab _ ih =>
    rcases List.mem_cons.1 hb with rfl | hb
    · exact ⟨_, List.mem_cons_self, hab⟩
    · obtain ⟨a, ha, hr⟩ := ih hb
      exact ⟨a, List.mem_cons_of_mem _ ha, hr⟩

theorem exists_mem_of_forall₂ {as : List α} {bs : List β} (h : List.Forall₂ R as bs) {a : α}
    (ha : a ∈ as) : ∃ b ∈ bs, R a b :=
  exists_of_forall₂ h.flip ha

theorem exists_forall₂ :
    ∀ {as : List α}, (∀ a ∈ as, ∃ b, R a b) → ∃ bs, List.Forall₂ R as bs
  | [], _ => ⟨[], .nil⟩
  | a :: as, h => by
    obtain ⟨b, hb⟩ := h a List.mem_cons_self
    obtain ⟨bs, hbs⟩ := exists_forall₂ fun x hx => h x (List.mem_cons_of_mem a hx)
    exact ⟨b :: bs, .cons hb hbs⟩

theorem forall₂_imp_of_mem {S : α → β → Prop} {as : List α} {bs : List β}
    (h : List.Forall₂ R as bs) (hRS : ∀ a ∈ as, ∀ b ∈ bs, R a b → S a b) :
    List.Forall₂ S as bs := by
  induction h with
  | nil => exact .nil
  | cons hab _ ih =>
    refine .cons (hRS _ List.mem_cons_self _ List.mem_cons_self hab) (ih fun a ha b hb => ?_)
    exact hRS a (List.mem_cons_of_mem _ ha) b (List.mem_cons_of_mem _ hb)

/-- Results of the same items, compared with each other. -/
theorem forall₂_of_forall₂ {γ : Type} {S : α → γ → Prop} {T : β → γ → Prop} {as : List α}
    {bs : List β} {cs : List γ} (h : List.Forall₂ R as bs) (h' : List.Forall₂ S as cs)
    (hT : ∀ a ∈ as, ∀ b c, R a b → S a c → T b c) : List.Forall₂ T bs cs := by
  induction h generalizing cs with
  | nil =>
    cases h'
    exact .nil
  | cons hab _ ih =>
    cases h' with
    | cons hac hrest =>
      exact .cons (hT _ List.mem_cons_self _ _ hab hac)
        (ih hrest fun a ha => hT a (List.mem_cons_of_mem _ ha))

/-- What is told of items and of their results alike makes the same list. -/
theorem map_eq_of_forall₂ {γ : Type} {f : α → γ} {g : β → γ} {as : List α} {bs : List β}
    (h : List.Forall₂ R as bs) (hfg : ∀ a ∈ as, ∀ b, R a b → f a = g b) : as.map f = bs.map g := by
  induction h with
  | nil => rfl
  | cons hab _ ih =>
    rw [List.map_cons, List.map_cons, hfg _ List.mem_cons_self _ hab,
      ih fun a ha => hfg a (List.mem_cons_of_mem _ ha)]

/-- What holds between any two items holds between their results. -/
theorem pairwise_of_forall₂ {S : α → α → Prop} {T : β → β → Prop} {as : List α} {bs : List β}
    (h : List.Forall₂ R as bs) (has : as.Pairwise S)
    (hST : ∀ a a' b b', R a b → R a' b' → S a a' → T b b') : bs.Pairwise T := by
  induction h with
  | nil => exact List.Pairwise.nil
  | cons hab hrest ih =>
    obtain ⟨hfirst, has⟩ := List.pairwise_cons.1 has
    refine List.pairwise_cons.2 ⟨fun b' hb' => ?_, ih has⟩
    obtain ⟨a', ha', hab'⟩ := exists_of_forall₂ hrest hb'
    exact hST _ a' _ b' hab hab' (hfirst a' ha')

/-! ## Which step fails -/

namespace Logged

variable {f : α → Logged β}

theorem exists_each_iff {as : List α} :
    (∃ bs, (each f as).result = .ok bs) ↔ ∀ a ∈ as, ∃ b, (f a).result = .ok b := by
  rw [result_each]
  exact exists_mapM_iff

/-- The fault is that of the first step that fails. -/
theorem each_eq_error_iff {as : List α} {fault : Fault} :
    (each f as).result = .error fault ↔
      ∃ before a after, as = before ++ a :: after ∧ (∀ x ∈ before, ∃ b, (f x).result = .ok b) ∧
        (f a).result = .error fault := by
  rw [result_each]
  exact mapM_eq_error_iff

/-! ## What is logged -/

theorem notices_each_cons_of_ok {a : α} {b : β} (h : (f a).result = .ok b) (as : List α) :
    (each f (a :: as)).notices = (f a).notices ++ (each f as).notices := by
  rw [each, andThen, h]
  dsimp only
  rw [andThen]
  cases (each f as).result with
  | ok bs => exact congrArg ((f a).notices ++ ·) (List.append_nil _)
  | error fault => rfl

theorem notices_each_of_ok {as : List α} (h : ∀ a ∈ as, ∃ b, (f a).result = .ok b) :
    (each f as).notices = as.flatMap fun a => (f a).notices := by
  induction as with
  | nil => rfl
  | cons a as ih =>
    obtain ⟨⟨b, hb⟩, has⟩ := List.forall_mem_cons.1 h
    rw [notices_each_cons_of_ok hb, ih has, List.flatMap_cons]

theorem notices_each_of_error {before after : List α} {a : α} {fault : Fault}
    (hbefore : ∀ x ∈ before, ∃ b, (f x).result = .ok b) (ha : (f a).result = .error fault) :
    (each f (before ++ a :: after)).notices =
      (before.flatMap fun x => (f x).notices) ++ (f a).notices := by
  induction before with
  | nil => rw [List.nil_append, each, andThen, ha, List.flatMap_nil, List.nil_append]
  | cons x before ih =>
    obtain ⟨⟨b, hb⟩, hbefore⟩ := List.forall_mem_cons.1 hbefore
    rw [List.cons_append, notices_each_cons_of_ok hb, ih hbefore, List.flatMap_cons,
      List.append_assoc]

/-! ## Outlines -/

/-- A step without its value: what it logs, and its fault if it fails. -/
def outline (x : Logged α) : Logged Unit :=
  ⟨x.notices, x.result.map fun _ => ()⟩

/-- Steps without values, one after another. -/
def inTurn : List (Logged Unit) → Logged Unit
  | [] => done ()
  | x :: xs => x.andThen fun _ => inTurn xs

theorem eq_error_iff_of_outline_eq {x : Logged α} {y : Logged β} (h : x.outline = y.outline)
    {fault : Fault} : x.result = .error fault ↔ y.result = .error fault := by
  have hresult := congrArg Logged.result h
  dsimp only [outline] at hresult
  rw [← map_eq_error_iff (f := fun _ => ()), hresult, map_eq_error_iff]

theorem exists_ok_iff_of_outline_eq {x : Logged α} {y : Logged β} (h : x.outline = y.outline) :
    (∃ a, x.result = .ok a) ↔ ∃ b, y.result = .ok b := by
  have herror : ∀ fault, x.result = .error fault ↔ y.result = .error fault :=
    fun _ => eq_error_iff_of_outline_eq h
  cases hx : x.result with
  | ok a =>
    cases hy : y.result with
    | ok b => exact ⟨fun _ => ⟨b, rfl⟩, fun _ => ⟨a, rfl⟩⟩
    | error fault => exact absurd ((herror fault).2 hy) (by simp [hx])
  | error fault => simp [(herror fault).1 hx]

theorem outline_andThen {x : Logged α} {g : α → Logged β} {y : Logged Unit}
    (h : ∀ a, x.result = .ok a → (g a).outline = y) :
    (x.andThen g).outline = x.outline.andThen fun _ => y := by
  cases hx : x.result with
  | error fault => simp only [andThen, outline, hx, Except.map]
  | ok a =>
    rw [← h a hx]
    simp only [andThen, outline, hx, Except.map]

theorem andThen_done (x : Logged Unit) : (x.andThen fun _ => done ()) = x := by
  obtain ⟨notices, result⟩ := x
  cases result with
  | error fault => rfl
  | ok a => simp only [andThen, done, List.append_nil]

/-- A value that is made of the one before changes nothing. -/
theorem outline_bind_pure (x : Logged α) (g : α → β) :
    (x >>= fun a => pure (g a)).outline = x.outline := by
  show (x.andThen fun a => done (g a)).outline = _
  rw [outline_andThen (y := done ()) fun _ _ => rfl, andThen_done]

theorem andThen_assoc (x y z : Logged Unit) :
    ((x.andThen fun _ => y).andThen fun _ => z) = x.andThen fun _ => y.andThen fun _ => z := by
  obtain ⟨notices, result⟩ := x
  cases result with
  | error fault => rfl
  | ok a =>
    obtain ⟨notices', result'⟩ := y
    cases result' with
    | error fault => rfl
    | ok b => simp only [andThen, List.append_assoc]

theorem outline_each (f : α → Logged β) (as : List α) :
    (each f as).outline = inTurn (as.map fun a => (f a).outline) := by
  induction as with
  | nil => rfl
  | cons a as ih =>
    rw [each, List.map_cons, inTurn, ← ih]
    exact outline_andThen fun b _ => outline_bind_pure (each f as) (b :: ·)

theorem inTurn_append (xs ys : List (Logged Unit)) :
    inTurn (xs ++ ys) = (inTurn xs).andThen fun _ => inTurn ys := by
  induction xs with
  | nil => rfl
  | cons x xs ih => rw [List.cons_append, inTurn, inTurn, ih, andThen_assoc]

/-- How the steps are grouped does not matter. -/
theorem outline_each_flatMap {γ δ : Type} {g : γ → List α} {h : γ → Logged δ} {xs : List γ}
    (hg : ∀ x ∈ xs, (h x).outline = (each f (g x)).outline) :
    (each h xs).outline = (each f (xs.flatMap g)).outline := by
  rw [outline_each, outline_each]
  induction xs with
  | nil => rfl
  | cons x xs ih =>
    obtain ⟨hx, hxs⟩ := List.forall_mem_cons.1 hg
    rw [List.map_cons, inTurn, List.flatMap_cons, List.map_append, inTurn_append, ih hxs, hx,
      outline_each]

end Logged
end Resemblance
