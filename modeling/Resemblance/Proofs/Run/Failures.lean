import Resemblance.Proofs.Run.Faults

/-!
# Files that cannot be written

A run ends with a fault, or it collects the failures of files that could not be written, and nothing
is both: the faults that end a run are those of reading, and the failures are those of writing.
Which files cannot be written is known from the directories of the tree, and so are all failures of
a run.

## What is here

* `Reached.writeOutputs_eq_firstFailure` — writing the files of a source fails with the failure of
  the first one that may not be written, whatever was written in other places before.
* `Course.failures_eq` — the failures that a run returns.
* `Corpus.load_isFatal` — loading fails with fatal faults only.
-/

set_option autoImplicit false
namespace Resemblance

open Resemblance.Tree

/-! ## Writing fails where the first tree shows it -/

/-- How writing ends that fails with the failure, if there is one. -/
def resultOf : Option Fault → Except Fault Unit
  | none => .ok ()
  | some fault => .error fault

theorem Plan.result_eq (p : Plan) : p.result = resultOf p.failure := by
  rw [result]
  cases p.failure <;> rfl

/-- **Writing the files of a source fails where the first tree shows it**, whatever was written in
the directories of sources before. -/
theorem Reached.writeOutputs_eq_firstFailure {t u : Tree} {sources : List Source}
    (h : Reached t sources u)
    (hsources : ∀ source ∈ sources, t.isDirectory source.directory = true) {source : Source}
    (hsource : source ∈ sources) (regions : Option (List Region)) (peers : List Standing) :
    (Resemblance.writeOutputs u source.directory regions peers).2 =
      resultOf (t.firstFailure source.directory submissionFiles) := by
  obtain ⟨place, hd⟩ := exists_leadsTo (hsources source hsource)
  have hagree := h.agree hsources
  rw [writeOutputs_eq (hagree.leadsTo hd), Plan.result_eq, failure_plan_eq,
    hagree.firstFailure_eq hd]
  rfl

/-! ## The failures of a run -/

/-- A step fails at the first file of its source that may not be written. -/
theorem Source.failure_step_eq {r : Reference} {s : Settings} {t : Tree} {source : Source}
    {z : Step} (h : source.step r s t = .ok z) :
    z.plan.failure = t.firstFailure source.directory submissionFiles := by
  obtain ⟨_, _, _, _, hplan⟩ := step_eq_ok h
  rw [hplan, failure_plan_eq]
  rfl

namespace Course

variable {t : Tree} {root : Path} {s : Settings} (c : Course t root s)

theorem failure_lastPlan_eq : c.lastPlan.failure = t.firstFailure root [overallRankingFile] := by
  rw [lastPlan, failure_plan_eq]
  rfl

/-- **The failures of a run are those of its sources, in order, and that of the ranking.** -/
theorem failures_eq :
    c.summary.failures =
      (c.corpus.sources.filterMap fun source => t.firstFailure source.directory submissionFiles) ++
        (t.firstFailure root [overallRankingFile]).toList := by
  have hsteps : (c.corpus.sources.map fun source =>
      t.firstFailure source.directory submissionFiles) = c.steps.map (·.plan.failure) :=
    map_eq_of_forall₂ c.step fun source _ z hz => (Source.failure_step_eq hz).symm
  have hfilter : c.steps.filterMap (·.plan.failure) =
      c.corpus.sources.filterMap fun source =>
        t.firstFailure source.directory submissionFiles := by
    calc c.steps.filterMap (·.plan.failure)
        = (c.steps.map (·.plan.failure)).filterMap id := by
          rw [List.filterMap_map]
          rfl
      _ = c.corpus.sources.filterMap fun source =>
          t.firstFailure source.directory submissionFiles := by
        rw [← hsteps, List.filterMap_map]
        rfl
  rw [summary, hfilter, failure_lastPlan_eq]

end Course

/-! ## The faults of loading -/

section Fatal

variable (t : Tree)

theorem readFingerprints_isFatal {path : Path} {fault : Fault}
    (h : readFingerprints t path = .error fault) : fault.isFatal := by
  unfold readFingerprints at h
  split at h
  · cases h
    rfl
  · split at h
    · cases h
      rfl
    · exact absurd h (by simp)

theorem listDirectories_isFatal (path : Path) :
    (listDirectories t path).FailsOnlyWith fun fault => fault.isFatal := by
  refine .ofExcept ?_
  intro fault h
  cases hlisted : t.directories path with
  | error e =>
    rw [hlisted] at h
    cases h
    rfl
  | ok names =>
    rw [hlisted] at h
    cases h

theorem inspectVersion_isFatal (student : String) (directory : Path) (name : String) :
    (inspectVersion t student directory name).FailsOnlyWith fun fault => fault.isFatal := by
  intro fault h
  unfold inspectVersion at h
  split at h
  · cases h
    rfl
  · dsimp only at h
    split at h
    · cases h
    · cases h

theorem discover_isFatal (directory : Path) :
    (discover t directory).FailsOnlyWith fun fault => fault.isFatal := by
  refine (listDirectories_isFatal t directory).bind fun students _ => ?_
  refine .bind (.each fun student _ => ?_) fun found _ => .pure _
  refine (listDirectories_isFatal t (directory / student)).bind fun names _ => ?_
  refine .bind (.each fun name _ => ?_) fun found _ => .pure _
  exact inspectVersion_isFatal t student (directory / student) name

theorem loadIndex_isFatal (label : String) (sources : List Source) :
    (Logged.ofExcept (loadIndex t label sources)).FailsOnlyWith fun fault => fault.isFatal := by
  refine .ofExcept ?_
  intro fault h
  obtain ⟨source, -, hsource⟩ := exists_of_mapM_eq_error (map_eq_error_iff.1 h)
  exact readFingerprints_isFatal t (map_eq_error_iff.1 hsource)

theorem loadProvidedCode_isFatal (root : Path) :
    (Logged.ofExcept (loadProvidedCode t root)).FailsOnlyWith fun fault => fault.isFatal := by
  refine .ofExcept ?_
  intro fault h
  unfold loadProvidedCode at h
  dsimp only at h
  split at h
  · exact readFingerprints_isFatal t (map_eq_error_iff.1 h)
  · cases h

theorem loadOtherGradeables_isFatal (root : Path) :
    (loadOtherGradeables t root).FailsOnlyWith fun fault => fault.isFatal := by
  unfold loadOtherGradeables
  dsimp only
  split
  · refine (listDirectories_isFatal t _).bind fun names _ => .each fun name _ => ?_
    exact (discover_isFatal t _).bind fun sources _ => loadIndex_isFatal t name sources
  · exact .pure []

/-- **Loading fails with fatal faults only.** -/
theorem Corpus.load_isFatal (root : Path) (settings : Settings.Gradeable) :
    (Corpus.load t root settings).FailsOnlyWith fun fault => fault.isFatal := by
  have hfail : ∀ fault : SettingsFault,
      (Logged.fail (.settings fault) : Logged Corpus).FailsOnlyWith fun fault => fault.isFatal := by
    intro fault fault' h
    cases h
    rfl
  unfold load
  dsimp only
  split
  · exact hfail _
  split
  · exact hfail _
  refine (discover_isFatal t _).bind fun sources _ => ?_
  refine (loadIndex_isFatal t settings.label sources).bind fun current _ => ?_
  split
  · refine (loadProvidedCode_isFatal t root).bind fun provided _ => ?_
    exact (loadOtherGradeables_isFatal t root).bind fun others _ => .pure _
  · exact (loadOtherGradeables_isFatal t root).bind fun others _ => .pure _

end Fatal
end Resemblance
