import Resemblance.Proofs.Corpus.Stable
import Resemblance.Proofs.Run.Plan

/-!
# The course of a run

A run goes from source to source, and each step reads a tree that the steps before it have changed.
But they changed output files only, and a step reads directories and a fingerprint file.  So a step
comes to the same whatever was written before it, and the course of the run can be read off the tree
with which it begins.

## What is here

* `Source.step` — the ledger of a source, and the plan of its files.
* `processAll_eq` — a list of sources is processed in the steps that the first tree shows.
* `Course` — a corpus that was loaded, and the steps of its sources.
* `Course.run_eq` — what a run changes and returns.
-/

set_option autoImplicit false
namespace Resemblance

open Resemblance.Tree

/-! ## One step -/

/-- What the comparison of a source comes to. -/
structure Step where
  source : Source
  ledger : Ledger
  plan : Plan

namespace Step

/-- What is left of the step. -/
def outcome (z : Step) : Outcome :=
  ⟨z.ledger.summary, z.ledger.hasSuspicion, z.plan.failure⟩

/-- The outcome with the notices of the step. -/
def logged (z : Step) (s : Settings) : Logged Outcome :=
  ⟨z.ledger.reportNotices s ++
    z.plan.failure.toList.map (.outputFailed z.source.student z.source.version), .ok z.outcome⟩

end Step

/-- The output files that a ledger asks for. -/
def Ledger.outputs (l : Ledger) (s : Settings) : List Output :=
  submissionOutputs (l.reported s) l.rankPeers

/-- The step of a source, as a tree shows it. -/
def Source.step (source : Source) (r : Reference) (s : Settings) (t : Tree) : Except Fault Step :=
  (source.load t).map fun submission =>
    let ledger := classify r submission s.gradeable.hashSize
    ⟨source, ledger, t.plan source.directory (ledger.outputs s)⟩

theorem Ledger.isSome_reported (l : Ledger) (s : Settings) :
    (l.reported s).isSome = l.hasSuspicion := by
  rw [reported]
  cases l.hasSuspicion <;> rfl

section OneStep

variable {r : Reference} {s : Settings} {t : Tree} {source : Source}

theorem Source.step_eq_ok {z : Step} (h : source.step r s t = .ok z) :
    ∃ submission, source.load t = .ok submission ∧ z.source = source ∧
      z.ledger = classify r submission s.gradeable.hashSize ∧
        z.plan = t.plan source.directory (z.ledger.outputs s) := by
  obtain ⟨submission, hload, rfl⟩ := map_eq_ok_iff.1 h
  exact ⟨submission, hload, rfl, rfl, rfl⟩

/-- Processing a source carries out its step. -/
theorem process_eq {z : Step} {place : Place} (hd : t.LeadsTo source.directory place)
    (h : source.step r s t = .ok z) :
    process r s t source = (t.changeAll z.plan.changes, z.logged s) := by
  obtain ⟨submission, hload, hsource, hledger, hplan⟩ := Source.step_eq_ok h
  rw [process_of_submission hload]
  simp only [deliver, ← hledger, writeOutputs_eq hd]
  rw [← Ledger.outputs, ← hplan, Plan.result, Step.logged, Step.outcome, hsource,
    Ledger.isSome_reported]
  cases z.plan.failure with
  | none => simp
  | some fault => simp

/-- **A step comes to the same when other output files were written.** -/
theorem Source.step_eq {u : Tree} {directory : Path} (h : AgreeOutside IsOutput t u)
    (hsource : source.IsBelow t directory) : source.step r s u = source.step r s t := by
  obtain ⟨place, hd⟩ := exists_leadsTo hsource.isDirectory
  rw [step, step, Source.load_eq h not_isOutput_fingerprintFile hsource.isFile]
  simp only [h.plan_eq hd]

end OneStep

/-! ## Many steps -/

section ManySteps

variable {r : Reference} {s : Settings} {t : Tree} {directory : Path}

/-- The changes of a step are those of output files. -/
theorem Source.agreeOutside_step {u : Tree} {source : Source} {z : Step}
    (hsource : source.IsBelow t directory) (hz : source.step r s t = .ok z)
    (h : AgreeOutside IsOutput t u) : AgreeOutside IsOutput t (u.changeAll z.plan.changes) := by
  obtain ⟨place, hd⟩ := exists_leadsTo hsource.isDirectory
  obtain ⟨_, _, _, _, hplan⟩ := step_eq_ok hz
  rw [hplan, ← h.plan_eq hd]
  exact h.trans (agreeOutside_plan (h.leadsTo hd) (name_mem_submissionOutputs _ _))

/-- **Sources are processed in the steps that the first tree shows.** -/
theorem processAll_eq :
    ∀ {sources : List Source} {steps : List Step} {u : Tree},
      (∀ source ∈ sources, source.IsBelow t directory) →
        List.Forall₂ (fun source z => source.step r s t = .ok z) sources steps →
          AgreeOutside IsOutput t u →
            processAll r s u sources =
              (u.changeAll (steps.flatMap (·.plan.changes)), steps.map (·.logged s))
  | [], [], u, _, _, _ => rfl
  | source :: sources, z :: steps, u, hbelow, .cons hz hrest, h => by
    have hsource := hbelow source List.mem_cons_self
    obtain ⟨place, hd⟩ := exists_leadsTo hsource.isDirectory
    have hstep : source.step r s u = .ok z := (Source.step_eq h hsource).trans hz
    have hnext := processAll_eq (fun x hx => hbelow x (List.mem_cons_of_mem source hx)) hrest
      (Source.agreeOutside_step hsource hz h)
    rw [processAll_cons, process_eq (h.leadsTo hd) hstep]
    simp only [hnext, List.flatMap_cons, List.map_cons, changeAll_append]

end ManySteps

/-! ## Summing up -/

theorem ofOutcomes_steps (steps : List Step) (overall : List Standing) :
    RunSummary.ofOutcomes (steps.map Step.outcome) overall =
      { submissions := steps.length
        withMatches := steps.countP (·.ledger.hasSuspicion)
        failures := steps.filterMap (·.plan.failure)
        overall := overall } := by
  rw [RunSummary.ofOutcomes, List.length_map, List.countP_map, List.filterMap_map]
  rfl

/-- The end of a run carries out the plan of the last file. -/
theorem finish_eq (t : Tree) (root : Path) (summary : RunSummary) :
    finish t root summary =
      (let plan := t.plan root (runOutputs summary.overall)
      (t.changeAll plan.changes, ⟨plan.failure.toList.map .rankingFailed,
        .ok { summary with failures := summary.failures ++ plan.failure.toList }⟩)) := by
  unfold finish
  simp only [writeOverallRanking_eq, runOutputs, plan]
  cases t.target root overallRankingFile with
  | error e => rfl
  | ok q =>
    simp only [Plan.first, Plan.result, Except.map, Option.toList_none, List.append_nil]
    rfl

/-! ## The whole run -/

/-- The course of a run: the corpus it loads and the steps of the sources. -/
structure Course (t : Tree) (root : Path) (s : Settings) where
  corpus : Corpus
  load : (Corpus.load t root s.gradeable).result = .ok corpus
  steps : List Step
  step : List.Forall₂ (fun source z => source.step corpus.reference s t = .ok z) corpus.sources steps

namespace Course

variable {t : Tree} {root : Path} {s : Settings} (c : Course t root s)

/-- The ranking of all students. -/
def overall : List Standing :=
  rankOverall (c.steps.map (·.ledger.summary)) s.engine.weights

/-- The plan of its file. -/
def lastPlan : Plan :=
  t.plan root (runOutputs c.overall)

/-- All changes of the run. -/
def changes : List Change :=
  c.steps.flatMap (·.plan.changes) ++ c.lastPlan.changes

/-- What the run returns. -/
def summary : RunSummary where
  submissions := c.steps.length
  withMatches := c.steps.countP (·.ledger.hasSuspicion)
  failures := c.steps.filterMap (·.plan.failure) ++ c.lastPlan.failure.toList
  overall := c.overall

/-- What the run logs after loading. -/
def notices : List Notice :=
  c.steps.flatMap (fun z => (z.logged s).notices) ++ c.lastPlan.failure.toList.map .rankingFailed

end Course

/-- A corpus that is loaded has a course. -/
theorem exists_course {t : Tree} {root : Path} {s : Settings} {corpus : Corpus}
    (h : (Corpus.load t root s.gradeable).result = .ok corpus) :
    ∃ c : Course t root s, c.corpus = corpus := by
  have hsteps : ∃ steps, List.Forall₂
      (fun source z => source.step corpus.reference s t = .ok z) corpus.sources steps := by
    refine exists_forall₂ fun source hsource => ?_
    obtain ⟨submission, hload⟩ := Corpus.exists_load h hsource
    exact ⟨_, map_eq_ok_iff.2 ⟨submission, hload, rfl⟩⟩
  obtain ⟨steps, hsteps⟩ := hsteps
  exact ⟨⟨corpus, h, steps, hsteps⟩, rfl⟩

namespace Course

variable {t : Tree} {root : Path} {s : Settings} (c : Course t root s)

theorem isBelow {source : Source} (hsource : source ∈ c.corpus.sources) :
    source.IsBelow t (root / usersDirectory) :=
  Corpus.isBelow c.load hsource

theorem exists_leadsTo_root (c : Course t root s) : ∃ place, t.LeadsTo root place :=
  exists_leadsTo (Corpus.load_eq_ok c.load).1

/-- The plan of a step is one for the directory of its source. -/
theorem exists_plan_eq {z : Step} (hz : z ∈ c.steps) :
    ∃ source ∈ c.corpus.sources, ∃ place, t.LeadsTo source.directory place ∧
      z.plan = t.plan source.directory (z.ledger.outputs s) := by
  obtain ⟨source, hsource, hstep⟩ := exists_of_forall₂ c.step hz
  obtain ⟨place, hd⟩ := exists_leadsTo (c.isBelow hsource).isDirectory
  obtain ⟨_, _, _, _, hplan⟩ := Source.step_eq_ok hstep
  exact ⟨source, hsource, place, hd, hplan⟩

theorem isDirectoryAt_of_mem_steps :
    ∀ d ∈ c.steps.flatMap (·.plan.changes), t.isDirectoryAt d.place = false := by
  intro d hd
  obtain ⟨z, hz, hd⟩ := List.mem_flatMap.1 hd
  obtain ⟨_, _, place, hdirectory, hplan⟩ := c.exists_plan_eq hz
  rw [hplan] at hd
  exact isDirectoryAt_of_mem_plan hdirectory d hd

/-- The steps end well, each with its outcome. -/
theorem each_logged_eq :
    (Logged.each id (c.steps.map (·.logged s))).result = .ok (c.steps.map Step.outcome) := by
  rw [Logged.each_eq_ok_iff, List.forall₂_map_left_iff, List.forall₂_map_right_iff,
    List.forall₂_same]
  exact fun z _ => rfl

/-- **What a run changes and returns.** -/
theorem run_eq :
    run t root s = (t.changeAll c.changes,
      ⟨(Corpus.load t root s.gradeable).notices ++ c.notices, .ok c.summary⟩) := by
  obtain ⟨place, hroot⟩ := c.exists_leadsTo_root
  have hsteps := processAll_eq (fun source hsource => c.isBelow hsource) c.step (.refl _ t)
  -- the last plan is made in the tree that the steps leave
  have hlast := (agreeOutside_changeAll c.isDirectoryAt_of_mem_steps).plan_eq hroot
    (runOutputs c.overall)
  have hsummaries : (c.steps.map Step.outcome).map (·.summary) =
      c.steps.map (·.ledger.summary) := List.map_map
  rw [run_of_corpus c.load]
  simp only [hsteps, conclude_of_outcomes c.each_logged_eq, ofOutcomes_steps, finish_eq,
    hsummaries]
  rw [← overall, hlast, ← lastPlan, ← changeAll_append, ← changes, List.append_assoc,
    List.flatMap_map, ← notices]
  rfl

end Course

/-- A run that ends well has a course. -/
theorem exists_course_of_run {t : Tree} {root : Path} {s : Settings} {summary : RunSummary}
    (h : (run t root s).2.result = .ok summary) :
    ∃ c : Course t root s, (run t root s).1 = t.changeAll c.changes ∧ c.summary = summary := by
  cases hload : (Corpus.load t root s.gradeable).result with
  | error fault => exact absurd h (by simp [run_of_fault hload])
  | ok corpus =>
    obtain ⟨c, -⟩ := exists_course hload
    rw [c.run_eq] at h ⊢
    exact ⟨c, rfl, Except.ok.inj h⟩

end Resemblance
