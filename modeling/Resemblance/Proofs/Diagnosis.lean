import Resemblance.Proofs.Logged
import Resemblance.Proofs.Sorting

/-!
# What comes of a computation that may fail

A computation that reads many things fails with the first thing that is wrong.  What it comes to can
be told without running it: when it is *sound*, so that it succeeds, and which faults are its
*defects*.  A `Diagnosis` tells both, and diagnoses are put together as the computations are: of two
steps the second counts if the first is sound (`Diagnosis.bind`), and of tasks in ascending order
each counts if all less ones are sound (`Diagnosis.mapM`).
-/

set_option autoImplicit false
namespace Resemblance

variable {ε α β γ : Type}

/-- Whether a computation succeeds exactly if it is sound, and fails exactly with its defects. -/
structure Diagnosis (result : Except ε α) (sound : Prop) (defect : ε → Prop) : Prop where
  exists_ok_iff : (∃ a, result = .ok a) ↔ sound
  eq_error_iff : ∀ e, result = .error e ↔ defect e

namespace Diagnosis

variable {x : Except ε α} {sound sound' : Prop} {defect defect' : ε → Prop}

theorem ok (a : α) : Diagnosis (.ok a : Except ε α) True fun _ => False where
  exists_ok_iff := iff_true_intro ⟨a, rfl⟩
  eq_error_iff _ := iff_false_intro fun h => by cases h

theorem error (e : ε) : Diagnosis (.error e : Except ε α) False fun e' => e' = e where
  exists_ok_iff := iff_false_intro fun ⟨_, h⟩ => by cases h
  eq_error_iff e' := by rw [Except.error.injEq, eq_comm]

theorem congr (h : Diagnosis x sound defect) (hsound : sound ↔ sound')
    (hdefect : ∀ e, defect e ↔ defect' e) : Diagnosis x sound' defect' where
  exists_ok_iff := h.exists_ok_iff.trans hsound
  eq_error_iff e := (h.eq_error_iff e).trans (hdefect e)

theorem map (h : Diagnosis x sound defect) (f : α → β) : Diagnosis (x.map f) sound defect where
  exists_ok_iff := by
    rw [← h.exists_ok_iff]
    simp only [map_eq_ok_iff]
    exact ⟨fun ⟨_, a, ha, _⟩ => ⟨a, ha⟩, fun ⟨a, ha⟩ => ⟨f a, a, ha, rfl⟩⟩
  eq_error_iff e := map_eq_error_iff.trans (h.eq_error_iff e)

/-- What the second of two steps does counts if the first is sound. -/
theorem bind {f : α → Except ε β} (h : Diagnosis x sound defect)
    (hf : ∀ a, x = .ok a → Diagnosis (f a) sound' defect') :
    Diagnosis (x >>= f) (sound ∧ sound') fun e => defect e ∨ sound ∧ defect' e where
  exists_ok_iff := by
    simp only [bind_eq_ok_iff]
    refine ⟨?_, ?_⟩
    · rintro ⟨b, a, ha, hb⟩
      exact ⟨h.exists_ok_iff.1 ⟨a, ha⟩, (hf a ha).exists_ok_iff.1 ⟨b, hb⟩⟩
    · rintro ⟨hsound, hsound'⟩
      obtain ⟨a, ha⟩ := h.exists_ok_iff.2 hsound
      obtain ⟨b, hb⟩ := (hf a ha).exists_ok_iff.2 hsound'
      exact ⟨b, a, ha, hb⟩
  eq_error_iff e := by
    rw [bind_eq_error_iff, h.eq_error_iff]
    refine or_congr_right ⟨?_, ?_⟩
    · rintro ⟨a, ha, herror⟩
      exact ⟨h.exists_ok_iff.1 ⟨a, ha⟩, ((hf a ha).eq_error_iff e).1 herror⟩
    · rintro ⟨hsound, hdefect⟩
      obtain ⟨a, ha⟩ := h.exists_ok_iff.2 hsound
      exact ⟨a, ha, ((hf a ha).eq_error_iff e).2 hdefect⟩

/-- A list of tasks in ascending order is sound if all of them are, and its defects are those of a
task before which all are sound. -/
theorem mapM {κ : Type} [LinearOrder κ] {key : γ → κ} {here sound : γ → Prop}
    {defect : γ → ε → Prop} {task : γ → Except ε β} {items : List γ}
    (hascending : items.Pairwise fun a b => key a < key b) (hmem : ∀ a, a ∈ items ↔ here a)
    (h : ∀ a, here a → Diagnosis (task a) (sound a) (defect a)) :
    Diagnosis (items.mapM task) (∀ a, here a → sound a) fun e =>
      ∃ a, here a ∧ (∀ b, here b → key b < key a → sound b) ∧ defect a e where
  exists_ok_iff := by
    simp only [exists_mapM_iff, hmem]
    exact forall₂_congr fun a ha => (h a ha).exists_ok_iff
  eq_error_iff e := by
    rw [mapM_eq_error_iff]
    refine ⟨?_, ?_⟩
    · rintro ⟨before, a, after, rfl, hbefore, ha⟩
      have hhere := (hmem a).1 (List.mem_append_right _ List.mem_cons_self)
      refine ⟨a, hhere, fun b hb hlt => ?_, ((h a hhere).eq_error_iff e).1 ha⟩
      have hmem' := (mem_before_iff hascending).2 ⟨(hmem b).2 hb, hlt⟩
      exact (h b hb).exists_ok_iff.1 (hbefore b hmem')
    · rintro ⟨a, hhere, hbefore, ha⟩
      obtain ⟨before, after, rfl⟩ := List.append_of_mem ((hmem a).2 hhere)
      refine ⟨before, a, after, rfl, fun b hb => ?_, ((h a hhere).eq_error_iff e).2 ha⟩
      obtain ⟨hmem', hlt⟩ := (mem_before_iff hascending).1 hb
      have hhere' := (hmem b).1 hmem'
      exact (h b hhere').exists_ok_iff.2 (hbefore b hhere' hlt)

/-- Steps of the same outline come to the same. -/
theorem of_outline_eq {x : Logged α} {y : Logged β} {sound : Prop} {defect : Fault → Prop}
    (h : x.outline = y.outline) (hy : Diagnosis y.result sound defect) :
    Diagnosis x.result sound defect where
  exists_ok_iff := (Logged.exists_ok_iff_of_outline_eq h).trans hy.exists_ok_iff
  eq_error_iff fault := (Logged.eq_error_iff_of_outline_eq h).trans (hy.eq_error_iff fault)

end Diagnosis
end Resemblance
