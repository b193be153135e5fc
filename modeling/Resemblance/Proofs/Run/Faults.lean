import Resemblance.Proofs.Run.Course

/-!
# A run that fails has written nothing

Fingerprint files are read twice, once for the corpus and once more between writes, and the faults
of the second reading come to light only when all sources were processed.  That would be too late to
leave the tree as it was.  But what a run writes in between are output files of sources, and none of
them is read.  So a source that was read once can be read again, and all faults are those of
loading.

## What is here

* `Reached` — the trees that a run may pass through, in whatever order its files are written.
* `Reached.agree` — they differ from the first tree in output files only.
* `Reached.process` — processing a source leads from one of them to another.
* `run_fault_iff`, `run_fails_before_writing` — the faults of a run, and the tree after them.
-/

set_option autoImplicit false
namespace Resemblance

open Resemblance.Tree

/-- The trees that are reached by writing and removing output files in the directories of sources,
one file at a time and whatever it is to hold. -/
inductive Reached (t : Tree) (sources : List Source) : Tree → Prop
  | start : Reached t sources t
  | write {u v : Tree} {source : Source} {name text : String} (h : Reached t sources u)
      (hsource : source ∈ sources) (hname : name ∈ outputNames)
      (hv : u.write source.directory name text = .ok v) : Reached t sources v
  | remove {u v : Tree} {source : Source} {name : String} (h : Reached t sources u)
      (hsource : source ∈ sources) (hname : name ∈ outputNames)
      (hv : u.remove (source.directory / name) = .ok v) : Reached t sources v

/-- A change of an output file, if it may be changed. -/
theorem agreeOutside_of_target {t u : Tree} {directory : Path} {place : Place} {name : String}
    {text? : Option String} (hd : t.LeadsTo directory place) (hname : name ∈ outputNames)
    (h : ((t.target directory name).map fun q => t.change ⟨q, text?⟩) = .ok u) :
    AgreeOutside IsOutput t u := by
  obtain ⟨q, hq, rfl⟩ := map_eq_ok_iff.1 h
  obtain ⟨-, hfile, rfl⟩ := target_eq_ok hd hq
  refine (agreeOutside_change (c := ⟨name :: place, text?⟩) hfile).mono ?_
  rintro q rfl
  exact ⟨name, hname, place, rfl⟩

theorem forOutput_eq_ok_iff {directory : Path} {name : String} {change : Except FileError Tree}
    {u : Tree} : forOutput directory name change = .ok u ↔ change = .ok u :=
  mapError_eq_ok_iff

namespace Reached

variable {t u : Tree} {sources : List Source}

/-- Output files are all that differs. -/
theorem agree (h : Reached t sources u)
    (hsources : ∀ source ∈ sources, t.isDirectory source.directory = true) :
    AgreeOutside IsOutput t u := by
  -- directories stay, so the path of a source leads to the same place at every step
  induction h with
  | start => exact .refl IsOutput t
  | write h hsource hname hv ih =>
    obtain ⟨place, hd⟩ := exists_leadsTo (hsources _ hsource)
    rw [write_eq] at hv
    exact ih.trans (agreeOutside_of_target (ih.leadsTo hd) hname hv)
  | @remove u v source name h hsource hname hv ih =>
    obtain ⟨place, hd⟩ := exists_leadsTo (hsources _ hsource)
    have hlimit : ∀ name ∈ outputNames, name.utf8ByteSize ≤ nameLimit := by decide
    have hremoved : u.removeIfThere (source.directory / name) = .ok v := by
      rw [removeIfThere, hv]
    rw [removeIfThere_eq (ih.leadsTo hd) (hlimit _ hname)] at hremoved
    exact ih.trans (agreeOutside_of_target (ih.leadsTo hd) hname hremoved)

variable {source : Source}

/-- The report of matches is written or removed. -/
theorem report (h : Reached t sources u) (hsource : source ∈ sources)
    (regions : Option (List Region)) {v : Tree}
    (hv : (match regions with
      | some regions => writeMatches u source.directory regions
      | none => removeMatches u source.directory) = .ok v) : Reached t sources v := by
  have hname : matchesFile ∈ outputNames := by decide
  cases regions with
  | some regions => exact h.write hsource hname (forOutput_eq_ok_iff.1 hv)
  | none =>
    dsimp only [removeMatches] at hv
    split at hv
    · -- there was none
      obtain rfl := Except.ok.inj hv
      exact h
    · exact h.remove hsource hname (forOutput_eq_ok_iff.1 hv)

/-- Writing the files of a source leads to another one of these trees. -/
theorem writeOutputs (h : Reached t sources u) (hsource : source ∈ sources)
    (regions : Option (List Region)) (peers : List Standing) :
    Reached t sources (writeOutputs u source.directory regions peers).1 := by
  unfold Resemblance.writeOutputs
  dsimp only
  split
  · exact h
  · rename_i v hv
    have hreport := h.report hsource regions hv
    split
    · exact hreport
    · rename_i hranking
      exact hreport.write hsource (by decide) (forOutput_eq_ok_iff.1 hranking)

/-- Processing a source leads to another one of these trees. -/
theorem process {r : Reference} {s : Settings} (h : Reached t sources u)
    (hsource : source ∈ sources) : Reached t sources (process r s u source).1 := by
  cases hload : source.load u with
  | error fault =>
    rw [process_of_fault hload]
    exact h
  | ok submission =>
    have hwritten := h.writeOutputs hsource
      ((classify r submission s.gradeable.hashSize).reported s)
      (classify r submission s.gradeable.hashSize).rankPeers
    rw [process_of_submission hload]
    unfold deliver
    dsimp only
    split
    · exact hwritten
    · exact hwritten

end Reached

/-! ## The faults of a run -/

variable {t : Tree} {root : Path} {s : Settings}

/-- **The faults of a run are those of loading.** -/
theorem run_fault_iff {fault : Fault} :
    (run t root s).2.result = .error fault ↔
      (Corpus.load t root s.gradeable).result = .error fault := by
  cases hload : (Corpus.load t root s.gradeable).result with
  | error fault' => simp [run_of_fault hload]
  | ok corpus =>
    obtain ⟨c, -⟩ := exists_course hload
    simp [c.run_eq]

/-- After loading has failed, the tree is as before. -/
theorem run_fst_of_fault {fault : Fault} (h : (run t root s).2.result = .error fault) :
    (run t root s).1 = t := by
  rw [run_of_fault (run_fault_iff.1 h)]

/-- **A source that was read once can be read again**, and processing it ends well. -/
theorem Reached.exists_outcome {corpus : Corpus} {u : Tree}
    (h : (Corpus.load t root s.gradeable).result = .ok corpus) (hu : Reached t corpus.sources u)
    {source : Source} (hsource : source ∈ corpus.sources) :
    (∃ submission, source.load t = .ok submission ∧ source.load u = .ok submission) ∧
      ∃ outcome, (Resemblance.process corpus.reference s u source).2.result = .ok outcome := by
  have hbelow : ∀ source ∈ corpus.sources, source.IsBelow t (root / usersDirectory) :=
    fun source hsource => Corpus.isBelow h hsource
  have hagree := hu.agree fun source hsource => (hbelow source hsource).isDirectory
  obtain ⟨place, hd⟩ := exists_leadsTo (hbelow source hsource).isDirectory
  obtain ⟨submission, hload⟩ := Corpus.exists_load h hsource
  have hloadu := Source.load_eq hagree not_isOutput_fingerprintFile (hbelow source hsource).isFile
  have hstep : ∃ z, source.step corpus.reference s u = .ok z :=
    ⟨_, map_eq_ok_iff.2 ⟨submission, hloadu.trans hload, rfl⟩⟩
  obtain ⟨z, hz⟩ := hstep
  refine ⟨⟨submission, hload, hloadu.trans hload⟩, z.outcome, ?_⟩
  rw [process_eq (hagree.leadsTo hd) hz]
  rfl

/-- **A run that fails leaves the tree as it was.**  Its faults are those of loading the corpus.
Once this has succeeded, every source can be read again with the same result, and processing it ends
well, in every tree that can be reached by writing and removing output files of the sources; and it
leads to another one of these trees, so this goes for any number of sources in any order.  Files are
written and removed one at a time, so it also goes for sources that are processed side by side. -/
theorem run_fails_before_writing (t : Tree) (root : Path) (s : Settings) :
    (∀ fault, (run t root s).2.result = .error fault → (run t root s).1 = t) ∧
    (∀ fault, (run t root s).2.result = .error fault ↔
      (Corpus.load t root s.gradeable).result = .error fault) ∧
    ∀ corpus, (Corpus.load t root s.gradeable).result = .ok corpus →
      ∀ u, Reached t corpus.sources u → ∀ source ∈ corpus.sources,
        (∃ submission, source.load t = .ok submission ∧ source.load u = .ok submission) ∧
        (∃ outcome, (process corpus.reference s u source).2.result = .ok outcome) ∧
        Reached t corpus.sources (process corpus.reference s u source).1 := by
  refine ⟨fun fault => run_fst_of_fault, fun fault => run_fault_iff, ?_⟩
  intro corpus hload u hu source hsource
  obtain ⟨hread, houtcome⟩ := hu.exists_outcome hload hsource
  exact ⟨hread, houtcome, hu.process hsource⟩

end Resemblance
