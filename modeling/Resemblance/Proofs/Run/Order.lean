import Mathlib.Data.List.Perm.Basic
import Resemblance.Proofs.Run.Outputs

/-!
# The order of the sources does not matter

Sources may be processed in any order, for instance as the workers of a pool get to them.  A step
reads directories and the fingerprint file of its source, and no other step changes these; and what
it changes is in the directory of its source, where no other step changes anything.  So every source
has the outcome it would have alone, and the tree after all of them is the same in any order.

## What is here

* `runInOrder` — a run that processes its sources in a given order and sums up their outcomes in the
  order of the corpus.
* `Course.processAll_eq_of_perm` — processing the sources of a run in another order.
* `run_order_independent` — the tree, the outcome of each source and the summary are those of a run
  that takes the sources one by one as they come.
-/

set_option autoImplicit false
namespace Resemblance

open Resemblance.Tree

/-! ## Runs in another order -/

/-- The outcomes of sources that were processed in some order, put back into the order of a list. -/
def gather (sources order : List Source) (outcomes : List (Logged Outcome)) :
    List (Logged Outcome) :=
  sources.filterMap fun source => (order.zip outcomes).lookup source

/-- A run that processes its sources in the order given. -/
def runInOrder (t : Tree) (root : Path) (s : Settings) (order : List Source) :
    Tree × Logged RunSummary :=
  let corpus := Corpus.load t root s.gradeable
  match corpus.result with
  | .error fault => (t, ⟨corpus.notices, .error fault⟩)
  | .ok { reference, sources } =>
    let (t, steps) := processAll reference s t order
    conclude t root s (corpus.notices ++ steps.flatMap (·.notices)) (gather sources order steps)

/-- What was logged in another order stays so at the end, and makes no other difference. -/
theorem conclude_of_perm (t : Tree) (root : Path) (s : Settings) {notices notices' : List Notice}
    (h : notices.Perm notices') (outcomes : List (Logged Outcome)) :
    (conclude t root s notices outcomes).1 = (conclude t root s notices' outcomes).1 ∧
      (conclude t root s notices outcomes).2.result =
        (conclude t root s notices' outcomes).2.result ∧
      (conclude t root s notices outcomes).2.notices.Perm
        (conclude t root s notices' outcomes).2.notices := by
  cases hresult : (Logged.each id outcomes).result with
  | error fault =>
    rw [conclude_of_fault hresult, conclude_of_fault hresult]
    exact ⟨rfl, rfl, h⟩
  | ok results =>
    rw [conclude_of_outcomes hresult, conclude_of_outcomes hresult]
    exact ⟨rfl, rfl, h.append_right _⟩

/-- Outcomes that depend on the source alone are put back as if nothing had been moved. -/
theorem gather_map {sources order : List Source} (f : Source → Logged Outcome)
    (h : ∀ source ∈ sources, source ∈ order) :
    gather sources order (order.map f) = sources.map f := by
  have hzip : order.zip (order.map f) = order.map fun source => (source, f source) := by
    have hmap := List.zip_map' (f := id) (g := f) (l := order)
    rwa [List.map_id] at hmap
  calc gather sources order (order.map f)
      = sources.filterMap fun source => some (f source) := by
        rw [gather, hzip]
        exact List.filterMap_congr fun source hsource => List.lookup_graph f (h source hsource)
    _ = sources.map f := congrFun List.filterMap_eq_map sources

/-! ## Processing in another order -/

namespace Course

variable {t : Tree} {root : Path} {s : Settings} (c : Course t root s)

/-- A source in the tree with which the run begins has the outcome of its step. -/
theorem snd_process_eq {source : Source} (hsource : source ∈ c.corpus.sources) {z : Step}
    (hz : source.step c.corpus.reference s t = .ok z) :
    (process c.corpus.reference s t source).2 = z.logged s := by
  obtain ⟨place, hd⟩ := exists_leadsTo (c.isBelow hsource).isDirectory
  rw [process_eq hd hz]

/-- **In every order, the sources lead to the same tree and each has the outcome it has alone.** -/
theorem processAll_eq_of_perm {order : List Source} (horder : order.Perm c.corpus.sources) :
    processAll c.corpus.reference s t order =
      (t.changeAll (c.steps.flatMap (·.plan.changes)),
        order.map fun source => (process c.corpus.reference s t source).2) := by
  have hmem : ∀ source ∈ order, source ∈ c.corpus.sources := fun source hsource =>
    horder.mem_iff.1 hsource
  -- the steps of the sources, in the order in which these are processed
  obtain ⟨steps, hsteps, hperm⟩ := List.perm_comp_forall₂ horder c.step
  have hchanges : t.changeAll (c.steps.flatMap (·.plan.changes)) =
      t.changeAll (steps.flatMap (·.plan.changes)) :=
    changeAll_perm t (hperm.symm.flatMap_right _)
      (c.pairwise_changes.sublist (List.sublist_append_left _ _))
  have houtcomes : (order.map fun source => (process c.corpus.reference s t source).2) =
      steps.map (·.logged s) :=
    map_eq_of_forall₂ hsteps fun source hsource z hz => c.snd_process_eq (hmem source hsource) hz
  rw [processAll_eq (fun source hsource => c.isBelow (hmem source hsource)) hsteps (.refl _ t),
    hchanges, houtcomes]

end Course

/-- No source of a corpus is there twice. -/
theorem Corpus.nodup_sources {t : Tree} {root : Path} {settings : Settings.Gradeable}
    {corpus : Corpus} (h : (Corpus.load t root settings).result = .ok corpus) :
    corpus.sources.Nodup := by
  refine (pairwise_discover (Corpus.load_eq_ok h).2.1).imp fun {a b} hne heq => ?_
  exact hne (congrArg Source.directory heq)

/-! ## The whole run -/

/-- **The order in which the sources are processed does not matter.**  Whatever the order, each
source is processed once and has the outcome it has alone in the tree with which the run begins; the
tree after all of them is the same; and so is what the whole run leaves behind and returns.  Only
what is logged may come in another order. -/
theorem run_order_independent {t : Tree} {root : Path} {s : Settings} {corpus : Corpus}
    (h : (Corpus.load t root s.gradeable).result = .ok corpus) {order : List Source}
    (horder : order.Perm corpus.sources) :
    let sequential := processAll corpus.reference s t corpus.sources
    let reordered := processAll corpus.reference s t order
    order.Nodup ∧
      reordered.1 = sequential.1 ∧
      reordered.2 = order.map (fun source => (process corpus.reference s t source).2) ∧
      sequential.2 = corpus.sources.map (fun source => (process corpus.reference s t source).2) ∧
      (runInOrder t root s order).1 = (run t root s).1 ∧
      (runInOrder t root s order).2.result = (run t root s).2.result ∧
      (runInOrder t root s order).2.notices.Perm (run t root s).2.notices := by
  intro sequential reordered
  obtain ⟨c, rfl⟩ := exists_course h
  have hsequential := c.processAll_eq_of_perm (List.Perm.refl _)
  have hreordered := c.processAll_eq_of_perm horder
  have hgather := gather_map (fun source => (process c.corpus.reference s t source).2)
    fun source hsource => horder.mem_iff.2 hsource
  have hnotices :=
    (horder.map fun source => (process c.corpus.reference s t source).2).flatMap_right
      fun outcome => outcome.notices
  refine ⟨horder.nodup_iff.2 (Corpus.nodup_sources h), ?_, ?_, ?_, ?_⟩
  · show (processAll c.corpus.reference s t order).1 = _
    rw [hreordered]
    show _ = (processAll c.corpus.reference s t c.corpus.sources).1
    rw [hsequential]
  · show (processAll c.corpus.reference s t order).2 = _
    rw [hreordered]
  · show (processAll c.corpus.reference s t c.corpus.sources).2 = _
    rw [hsequential]
  · -- the two runs differ in what was logged by the sources only
    rw [run_of_corpus h, runInOrder]
    simp only [h, hsequential, hreordered, hgather]
    exact conclude_of_perm _ root s (hnotices.append_left _) _

theorem run_order_independent_reversed :
    ∃ corpus, (Corpus.load copiedFiles copiedRoot copiedSettings.gradeable).result = .ok corpus ∧
      copiedSources.reverse.Perm corpus.sources ∧
      (runInOrder copiedFiles copiedRoot copiedSettings copiedSources.reverse).1 =
        (run copiedFiles copiedRoot copiedSettings).1 ∧
      (runInOrder copiedFiles copiedRoot copiedSettings copiedSources.reverse).2.result =
        (run copiedFiles copiedRoot copiedSettings).2.result := by
  obtain ⟨corpus, hload, hsources⟩ := exists_load_copiedFiles
  have horder : copiedSources.reverse.Perm corpus.sources := by
    rw [hsources]
    exact List.reverse_perm _
  obtain ⟨-, -, -, -, htree, hresult, -⟩ := run_order_independent hload horder
  exact ⟨corpus, hload, horder, htree, hresult⟩

end Resemblance
