import Resemblance.Proofs.Classify.Marks

/-!
# Stricter settings never create suspicion

A suspicious position has to be hit, and to stay clear of what suppresses it.  What hits a position
is a matter of the indices alone.  Provided code, threshold and hash size decide about the
suppressors, and more provided code, a lower threshold or wider windows only ever add to them: a
common position may become provided instead, but it does not become free.

## What is here

* `suppresses_of_stricter`, `Overlaps.mono` — stricter settings suppress more.
* `suspicious_of_stricter` — what they leave, milder settings leave too.
-/

set_option autoImplicit false
namespace Resemblance

open Std

theorem Overlaps.mono {width width' : Nat} {p q : Position} (h : Overlaps width p q)
    (hle : width ≤ width') :
    Overlaps width' p q := by
  rw [Overlaps] at h ⊢
  omega

section Settings

variable {current : Index} {others : List Index} {provided provided' : Option ProvidedCode}
  {threshold threshold' : Nat}

/-- With more provided code and a lower threshold, what suppressed still suppresses. -/
theorem suppresses_of_stricter
    (hprovided : ∀ code ∈ provided, ∀ f ∈ code, ∃ code' ∈ provided', f ∈ code')
    (hthreshold : threshold' ≤ threshold) {s : Submission} {q : Position}
    (h : (Reference.mk current provided others threshold).Suppresses s q) :
    (Reference.mk current provided' others threshold').Suppresses s q := by
  have hcode : ∀ f, (Reference.mk current provided others threshold).isProvided f = true →
      (Reference.mk current provided' others threshold').isProvided f = true := fun f hf => by
    simp only [Reference.isProvided, Option.any_eq_true, ExtTreeSet.contains_iff_mem] at hf ⊢
    obtain ⟨code, hcode, hmem⟩ := hf
    exact hprovided code hcode f hmem
  simp only [Reference.Suppresses, Reference.mem_marks_iff, Mark.position,
    Reference.common_mem_marksAt_iff, Reference.provided_mem_marksAt_iff] at h ⊢
  rcases h with ⟨f, hf, -, hbearers, hcommon⟩ | ⟨f, hf, hp⟩
  · cases hp : (Reference.mk current provided' others threshold').isProvided f with
    | true => exact .inr ⟨f, hf, hp⟩
    | false =>
      refine .inl ⟨f, hf, hp, hbearers, ?_⟩
      rw [Reference.isCommon, decide_eq_true_eq] at hcommon ⊢
      exact Nat.lt_of_le_of_lt hthreshold hcommon
  · exact .inr ⟨f, hf, hcode f hp⟩

/-- **Stricter settings never create suspicion.**  Take any indices and any submission, and two
settings of which the second has all the provided code of the first, a threshold that is not higher
and a hash size that is not smaller.  Then a position that is suspicious under the second is so
under the first, with exactly the same locations. -/
theorem suspicious_of_stricter
    (hprovided : ∀ code ∈ provided, ∀ f ∈ code, ∃ code' ∈ provided', f ∈ code')
    (hthreshold : threshold' ≤ threshold) {hashSize hashSize' : Nat} (hsize : hashSize ≤ hashSize')
    (s : Submission) {p : Position} {hit : Hit}
    (hp : (classify ⟨current, provided', others, threshold'⟩ s hashSize').suspicious[p]? =
      some hit) :
    (classify ⟨current, provided, others, threshold⟩ s hashSize).suspicious[p]? = some hit := by
  have hvalid' := valid_classify ⟨current, provided', others, threshold'⟩ s hashSize'
  -- the position is free under the second settings, and so under the first
  obtain ⟨y, hy⟩ := hvalid'.located hp
  have hfree' := ((cites_classify_iff_hits _ s hashSize' p y).1 ⟨hit, hp, hy⟩).2
  have hfree : ∀ q, (Reference.mk current provided others threshold).Suppresses s q →
      ¬Overlaps (max hashSize 1) p q := fun q hq hoverlap =>
    hfree' q (suppresses_of_stricter hprovided hthreshold hq) (hoverlap.mono (by omega))
  refine hvalid'.getElem?_of_cites (valid_classify _ s hashSize) ?_ (fun x => ?_) hp
  · rw [submission_classify, submission_classify]
  · -- both leave what hits the position, and hits are a matter of the indices
    rw [cites_classify_iff_hits, cites_classify_iff_hits, and_iff_left hfree', and_iff_left hfree]
    exact Iff.rfl

end Settings

/-- Three students, two of whom have handed in before. -/
def settingsIndices : Index × List Index :=
  (.ofSubmissions "hw" [⟨"ada", 1, #[1, 2, 3, 4, 5]⟩, ⟨"bob", 1, #[1, 2, 3, 5]⟩, ⟨"eve", 2, #[3]⟩],
    [.ofSubmissions "old" [⟨"ada", 1, #[6, 1]⟩, ⟨"bob", 3, #[4]⟩]])

/-- What is provided now suppresses itself, and what is common now its neighbour as well. -/
theorem suspicious_of_stricter_shared :
    let s : Submission := ⟨"ada", 1, #[1, 2, 3, 4, 5]⟩
    let mild := classify ⟨settingsIndices.1, some (.ofFingerprints [4]), settingsIndices.2, 3⟩ s 1
    let strict :=
      classify ⟨settingsIndices.1, some (.ofFingerprints [5, 4]), settingsIndices.2, 2⟩ s 2
    mild.suspicious.keys = [1, 2, 3, 5] ∧ strict.suspicious.keys = [1] ∧
      mild.suspicious[(1 : Position)]? = strict.suspicious[(1 : Position)]? := by
  intro s mild strict
  have hprovided : ∀ code ∈ some (ProvidedCode.ofFingerprints [4]), ∀ f ∈ code,
      ∃ code' ∈ some (ProvidedCode.ofFingerprints [5, 4]), f ∈ code' := by
    simp [ProvidedCode.ofFingerprints, ExtTreeSet.mem_ofList]
  have hstrict : strict.suspicious[(1 : Position)]?.isSome = true := by decide +kernel
  obtain ⟨hit, hhit⟩ := Option.isSome_iff_exists.1 hstrict
  refine ⟨by decide +kernel, by decide +kernel, ?_⟩
  rw [hhit]
  exact suspicious_of_stricter hprovided (by decide) (by decide) s hhit

end Resemblance
