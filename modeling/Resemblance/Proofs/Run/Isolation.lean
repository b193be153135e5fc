import Resemblance.Proofs.Run.Failures
import Resemblance.Proofs.Run.Obstruction
import Resemblance.Proofs.Run.Outputs

/-!
# A file that cannot be written disturbs nothing else

The same corpus is loaded from two trees that differ in obstructions alone, so every source has the
same ledger in both.  What is planned for a source that is not obstructed is the same as well, and
no other source changes anything in its directory.  So all that a run over one tree does, the files
of obstructed sources apart, a run over the other does too.

## What is here

* `DifferInObstructions.step_eq` — the ledgers and plans of the sources.
* `DifferInObstructions.node?_changeAll_eq` — what the two runs leave behind.
* `FullyReported`, `Isolated` — what a run reports, and what two runs have in common.
* `output_failures_isolated` — all of it.
-/

set_option autoImplicit false
namespace Resemblance

open Resemblance.Tree

namespace DifferInObstructions

variable {t u : Tree} {root : Path}

/-! ## Plans -/

/-- Where a source is not obstructed, its files have the same places. -/
theorem target_eq {directory : Path} {place : Place} (ht : t.LeadsTo directory place)
    (hu : u.LeadsTo directory place) (hfree : ¬t.IsObstructed directory)
    (hfree' : ¬u.IsObstructed directory) {name : String} (hname : name ∈ submissionFiles) :
    u.target directory name = t.target directory name := by
  have hfile : t.isDirectoryAt (name :: place) = false := by
    rw [Bool.eq_false_iff]
    exact fun hd => hfree ⟨place, ht, name, hname, hd⟩
  have hfile' : u.isDirectoryAt (name :: place) = false := by
    rw [Bool.eq_false_iff]
    exact fun hd => hfree' ⟨place, hu, name, hname, hd⟩
  rw [Tree.target_eq ht, Tree.target_eq hu, hfile, hfile']

section Courses

variable {s : Settings} (h : DifferInObstructions t u root) (c : Course t root s)
  (d : Course u root s) (hcorpus : d.corpus = c.corpus)

include h hcorpus

/-- **A source has the same ledger in both trees**, and where it is not obstructed the same plan. -/
theorem step_eq {source : Source} (hsource : source ∈ c.corpus.sources) {z z' : Step}
    (hz : source.step c.corpus.reference s t = .ok z)
    (hz' : source.step d.corpus.reference s u = .ok z') :
    z'.ledger = z.ledger ∧
      (¬t.IsObstructed source.directory → ¬u.IsObstructed source.directory → z'.plan = z.plan) := by
  have hbelow := c.isBelow hsource
  obtain ⟨place, ht⟩ := exists_leadsTo hbelow.isDirectory
  have hu := h.leadsTo ht (d.isBelow (hcorpus ▸ hsource)).isDirectory
  obtain ⟨submission, hload, -, hledger, hplan⟩ := Source.step_eq_ok hz
  obtain ⟨submission', hload', -, hledger', hplan'⟩ := Source.step_eq_ok hz'
  have hsame := Source.load_eq_of_alike (hbelow.fileAlike h.gradeableAlike.current) hbelow.isFile
  obtain rfl : submission' = submission := Except.ok.inj (hload'.symm.trans (hsame.trans hload))
  have hledgers : z'.ledger = z.ledger := by rw [hledger, hledger', hcorpus]
  refine ⟨hledgers, fun hfree hfree' => ?_⟩
  rw [hplan, hplan', hledgers]
  refine plan_congr fun o ho => target_eq ht hu hfree hfree' ?_
  exact List.mem_map_of_mem (f := Output.name) ho

theorem ledgers_eq : d.steps.map (·.ledger) = c.steps.map (·.ledger) := by
  have hstep := c.step
  rw [← hcorpus] at hstep
  have hpairs := forall₂_of_forall₂ d.step hstep fun source hsource z' z hz' hz =>
    (h.step_eq c d hcorpus (hcorpus ▸ hsource) (hcorpus ▸ hz) hz').1
  exact map_eq_of_forall₂ hpairs fun z' _ z heq => heq

theorem overall_eq : d.overall = c.overall := by
  have hsummaries : d.steps.map (·.ledger.summary) = c.steps.map (·.ledger.summary) := by
    have hmap := congrArg (List.map Ledger.summary) (h.ledgers_eq c d hcorpus)
    rwa [List.map_map, List.map_map] at hmap
  rw [Course.overall, Course.overall, hsummaries]

/-- The last plan is the same, for nothing in the root is in an obstruction. -/
theorem lastPlan_eq : d.lastPlan = c.lastPlan := by
  obtain ⟨place, ht⟩ := c.exists_leadsTo_root
  obtain ⟨_, hroot⟩ := d.exists_leadsTo_root
  have hu : u.LeadsTo root place := by
    rwa [hroot.eq_placeOf, placeOf_eq h.start, ← ht.eq_placeOf] at hroot
  have hnode := h.node (overallRankingFile :: place)
    (not_inObstruction_of_length_le (by rw [ht.eq_placeOf]; simp))
  rw [Course.lastPlan, Course.lastPlan, h.overall_eq c d hcorpus]
  refine plan_congr fun o ho => ?_
  obtain rfl := List.mem_singleton.1 ho
  rw [Tree.target_eq ht, Tree.target_eq hu, isDirectoryAt, isDirectoryAt, hnode]

/-! ## What the runs leave behind -/

/-- **A change that one run makes outside of obstructions is made by the other as well.** -/
theorem mem_changes {e : Change} (he : e ∈ c.changes) (hplace : ¬InObstruction t u root e.place) :
    e ∈ d.changes := by
  rcases List.mem_append.1 he with he | he
  · obtain ⟨z, hz, he⟩ := List.mem_flatMap.1 he
    obtain ⟨source, hsource, hstep⟩ := exists_of_forall₂ c.step hz
    obtain ⟨z', hz', hstep'⟩ := exists_mem_of_forall₂ d.step (hcorpus ▸ hsource)
    have hbelow := c.isBelow hsource
    obtain ⟨place, hd⟩ := exists_leadsTo hbelow.isDirectory
    -- were the source obstructed, then the change would be in the obstruction
    have hfree : ¬(t.IsObstructed source.directory ∨ u.IsObstructed source.directory) := by
      intro hobstructed
      refine hplace ⟨source, ⟨hbelow, d.isBelow (hcorpus ▸ hsource), hobstructed⟩, place, hd, ?_⟩
      rcases c.place_of_mem_plan hstep hd he with heq | heq
      · exact ⟨matchesFile, by decide, heq ▸ List.suffix_refl _⟩
      · exact ⟨peerRankingFile, by decide, heq ▸ List.suffix_refl _⟩
    obtain ⟨hfree, hfree'⟩ := not_or.1 hfree
    have hplan := (h.step_eq c d hcorpus hsource hstep hstep').2 hfree hfree'
    exact List.mem_append_left _ (List.mem_flatMap.2 ⟨z', hz', hplan ▸ he⟩)
  · exact List.mem_append_right _ (h.lastPlan_eq c d hcorpus ▸ he)

/-- **Outside of obstructions the two runs leave the same behind.** -/
theorem node?_changeAll_eq {q : Place} (hq : ¬InObstruction t u root q) :
    (u.changeAll d.changes).node? q = (t.changeAll c.changes).node? q := by
  refine node?_changeAll_congr c.changeable d.changeable (h.node q hq) ?_
  rintro e rfl
  constructor
  · intro he
    exact h.mem_changes c d hcorpus he hq
  · intro he
    exact h.symm.mem_changes d c hcorpus.symm he fun hq' => hq (h.symm.inObstruction_symm hq')

/-- An entry of a directory outside of obstructions is the same after both runs. -/
theorem at?_changeAll_eq {directory : Path} {name : String}
    (hd : t.isDirectory directory = true) (hd' : u.isDirectory directory = true)
    (hname : ∀ place, t.LeadsTo directory place → ¬InObstruction t u root (name :: place)) :
    (u.changeAll d.changes).at? (directory / name) =
      (t.changeAll c.changes).at? (directory / name) := by
  obtain ⟨place, ht⟩ := exists_leadsTo hd
  have hu := h.leadsTo ht hd'
  have hstart : (u.changeAll d.changes).start = (t.changeAll c.changes).start := by
    rw [d.agree.start, c.agree.start, h.start]
  have htc := c.leadsTo_changeAll ht
  have hsame := SameAt.of_leadsTo hstart htc (d.leadsTo_changeAll hu)
  refine (hsame.child ?_).at?_eq
  rw [← htc.eq_placeOf]
  exact h.node?_changeAll_eq c d hcorpus (hname place ht)

end Courses

end DifferInObstructions

/-! ## The two runs -/

/-- What a run reports of files that could not be written: one failure for each source with such a
file, in order, and one for the ranking of all students if that is one.  They are the failures of
writing, in whatever tree the run had come to. -/
structure FullyReported (t : Tree) (root : Path) (corpus : Corpus) (summary : RunSummary) :
    Prop where
  failures : summary.failures =
    (corpus.sources.filterMap fun source => t.firstFailure source.directory submissionFiles) ++
      (t.firstFailure root [overallRankingFile]).toList
  source : ∀ u, Reached t corpus.sources u → ∀ source ∈ corpus.sources, ∀ regions peers,
    (writeOutputs u source.directory regions peers).2 =
      resultOf (t.firstFailure source.directory submissionFiles)
  ranking : ∀ u, Reached t corpus.sources u → ∀ standings,
    ((writeOverallRanking u root standings).map fun _ => ()) =
      resultOf (t.firstFailure root [overallRankingFile])
  output : ∀ fault ∈ summary.failures, ∃ path e, fault = .output path e
  isSuccess : summary.isSuccess = true ↔
    (∀ source ∈ corpus.sources, t.firstFailure source.directory submissionFiles = none) ∧
      t.firstFailure root [overallRankingFile] = none

/-- What two runs have in common whose trees differ in obstructions: their summaries but for the
failures, and all files but those of sources that are obstructed in one of the trees. -/
structure Isolated (t u : Tree) (root : Path) (corpus : Corpus) (t' u' : Tree)
    (summary summary' : RunSummary) : Prop where
  submissions : summary'.submissions = summary.submissions
  withMatches : summary'.withMatches = summary.withMatches
  overall : summary'.overall = summary.overall
  files : ∀ source ∈ corpus.sources, ¬t.IsObstructed source.directory →
    ¬u.IsObstructed source.directory → ∀ name : String,
      u'.at? (source.directory / name) = t'.at? (source.directory / name)
  ranking : u'.at? (root / overallRankingFile) = t'.at? (root / overallRankingFile)
  elsewhere : ∀ q, ¬InObstruction t u root q → u'.node? q = t'.node? q

namespace Course

variable {t : Tree} {root : Path} {s : Settings} (c : Course t root s)

theorem fullyReported : FullyReported t root c.corpus c.summary where
  failures := c.failures_eq
  source u hu source hsource regions peers := by
    have hdirectory : ∀ source ∈ c.corpus.sources, t.isDirectory source.directory = true :=
      fun source hsource => (c.isBelow hsource).isDirectory
    exact hu.writeOutputs_eq_firstFailure hdirectory hsource regions peers
  ranking u hu standings := by
    obtain ⟨place, hroot⟩ := c.exists_leadsTo_root
    have hagree := hu.agree fun source hsource => (c.isBelow hsource).isDirectory
    have hfailure : (u.plan root (runOutputs standings)).failure =
        t.firstFailure root [overallRankingFile] := by
      rw [failure_plan_eq, hagree.firstFailure_eq hroot]
      rfl
    rw [writeOverallRanking_eq, Plan.result_eq, hfailure]
    cases t.firstFailure root [overallRankingFile] with
    | none => rfl
    | some fault => rfl
  output fault hfault := by
    rw [c.failures_eq, List.mem_append, List.mem_filterMap, Option.mem_toList] at hfault
    rcases hfault with ⟨source, _, hfault⟩ | hfault
    · obtain ⟨_, _, e, _, hfault⟩ := exists_of_firstFailure hfault
      exact ⟨_, e, hfault⟩
    · obtain ⟨_, _, e, _, hfault⟩ := exists_of_firstFailure hfault
      exact ⟨_, e, hfault⟩
  isSuccess := by
    rw [RunSummary.isSuccess, List.isEmpty_iff, c.failures_eq, List.append_eq_nil_iff,
      List.filterMap_eq_nil_iff, Option.toList_eq_nil_iff]

/-- **Two runs whose trees differ in obstructions have all else in common.** -/
theorem isolated {u : Tree} (h : DifferInObstructions t u root) (d : Course u root s)
    (hcorpus : d.corpus = c.corpus) :
    Isolated t u root c.corpus (t.changeAll c.changes) (u.changeAll d.changes) c.summary
      d.summary where
  submissions := by
    have hlength := congrArg List.length (h.ledgers_eq c d hcorpus)
    rwa [List.length_map, List.length_map] at hlength
  withMatches := by
    have hcount := congrArg (List.countP Ledger.hasSuspicion) (h.ledgers_eq c d hcorpus)
    rwa [List.countP_map, List.countP_map] at hcount
  overall := h.overall_eq c d hcorpus
  files source hsource hfree hfree' name := by
    have hbelow := c.isBelow hsource
    have hbelow' := d.isBelow (hcorpus ▸ hsource)
    exact h.at?_changeAll_eq c d hcorpus hbelow.isDirectory hbelow'.isDirectory
      fun place hd => not_inObstruction_of_free hbelow hfree hfree' hd name
  ranking := by
    refine h.at?_changeAll_eq c d hcorpus (Corpus.load_eq_ok c.load).1 (Corpus.load_eq_ok d.load).1
      fun place hd => not_inObstruction_of_length_le ?_
    rw [hd.eq_placeOf, List.length_cons]
    omega
  elsewhere q hq := h.node?_changeAll_eq c d hcorpus hq

end Course

/-- **Files that cannot be written are reported and disturb nothing else.**  A run fails with fatal
faults only, and no failure to write is one.  When it does not fail, its summary has one failure for
each source of which a file could not be written, in the order of the sources, and after these one
for the ranking of all students, if that could not be written; and the run is a success when there
is none.  If two trees differ only in directories that stand where files of submissions should be,
then the runs over them fail with the same fault, or both return a summary; and then the files of
every source that is obstructed in neither tree, the ranking of all students, as it is returned and
as it is written, and the numbers of submissions and of those with matches are the same. -/
theorem output_failures_isolated (root : Path) (s : Settings) :
    (∀ t : Tree,
      (∀ fault, (run t root s).2.result = .error fault → fault.isFatal = true) ∧
      ∀ summary, (run t root s).2.result = .ok summary →
        ∃ corpus, (Corpus.load t root s.gradeable).result = .ok corpus ∧
          FullyReported t root corpus summary) ∧
    ∀ t u : Tree, DifferInObstructions t u root →
      (∃ fault, (run t root s).2.result = .error fault ∧ (run u root s).2.result = .error fault) ∨
      ∃ corpus summary summary',
        (Corpus.load t root s.gradeable).result = .ok corpus ∧
        (Corpus.load u root s.gradeable).result = .ok corpus ∧
        (run t root s).2.result = .ok summary ∧ (run u root s).2.result = .ok summary' ∧
        Isolated t u root corpus (run t root s).1 (run u root s).1 summary summary' := by
  refine ⟨fun t => ⟨fun fault hfault => ?_, fun summary hsummary => ?_⟩, fun t u h => ?_⟩
  · exact Corpus.load_isFatal t root s.gradeable fault (run_fault_iff.1 hfault)
  · cases hload : (Corpus.load t root s.gradeable).result with
    | error fault => exact absurd hsummary (by simp [run_of_fault hload])
    | ok corpus =>
      obtain ⟨c, rfl⟩ := exists_course hload
      rw [c.run_eq] at hsummary
      obtain rfl := Except.ok.inj hsummary
      exact ⟨c.corpus, rfl, c.fullyReported⟩
  · have hsame := h.load_eq s.gradeable
    cases hload : (Corpus.load t root s.gradeable).result with
    | error fault =>
      refine .inl ⟨fault, run_fault_iff.2 hload, run_fault_iff.2 ?_⟩
      rw [hsame, hload]
    | ok corpus =>
      have hload' : (Corpus.load u root s.gradeable).result = .ok corpus := by rw [hsame, hload]
      obtain ⟨c, rfl⟩ := exists_course hload
      obtain ⟨d, hcorpus⟩ := exists_course hload'
      refine .inr ⟨c.corpus, c.summary, d.summary, rfl, hload', ?_, ?_, ?_⟩
      · rw [c.run_eq]
      · rw [d.run_eq]
      · rw [c.run_eq, d.run_eq]
        exact c.isolated h d hcorpus

/-- The files of `copiedFiles`, with a directory where the report of one student should be. -/
def obstructedFiles : Tree :=
  copiedFiles.put ["matches.json", "1", "ada", "users", "g"] .directory

theorem differInObstructions_obstructedFiles :
    DifferInObstructions copiedFiles obstructedFiles copiedRoot := by
  have hbelow : ∀ source ∈ copiedSources,
      source.IsBelow copiedFiles (copiedRoot / usersDirectory) :=
    fun source hsource => isBelow_of_mem_discover discover_copiedFiles hsource
  have hplace : ["1", "ada", "users", "g"] =
      copiedFiles.placeOf (copiedRoot / usersDirectory / "ada" / "1") := by decide +kernel
  have hleads : ∀ t : Tree, t.start = copiedFiles.start →
      t.isDirectory (copiedRoot / usersDirectory / "ada" / "1") = true →
        t.LeadsTo (copiedRoot / usersDirectory / "ada" / "1") ["1", "ada", "users", "g"] := by
    intro t hstart hd
    obtain ⟨place, hplace'⟩ := exists_leadsTo hd
    rwa [hplace'.eq_placeOf, placeOf_eq hstart, ← hplace] at hplace'
  have hd : obstructedFiles.isDirectory (copiedRoot / usersDirectory / "ada" / "1") = true := by
    decide +kernel
  have hobstructed : ObstructedIn copiedFiles obstructedFiles copiedRoot
      ⟨"ada", 1, copiedRoot / usersDirectory / "ada" / "1"⟩ := by
    refine ⟨hbelow _ List.mem_cons_self, ⟨⟨"1", rfl, by decide⟩, hd, by decide +kernel⟩, .inr ?_⟩
    exact ⟨_, hleads obstructedFiles rfl hd, matchesFile, by decide, by decide +kernel⟩
  refine ⟨rfl, fun q hq => ?_⟩
  have hne : ["matches.json", "1", "ada", "users", "g"] ≠ q := by
    rintro rfl
    refine hq ⟨_, hobstructed, _, hleads copiedFiles rfl hobstructed.isBelow.isDirectory, ?_⟩
    exact ⟨matchesFile, by decide, List.suffix_refl _⟩
  cases q with
  | nil => rfl
  | cons name outer =>
    rw [node?_eq_getElem? _ (by simp), node?_eq_getElem? _ (by simp), obstructedFiles, put,
      Std.ExtTreeMap.getElem?_insert, if_neg (by simpa using hne)]

theorem output_failures_isolated_copied :
    DifferInObstructions copiedFiles obstructedFiles copiedRoot ∧
    ∃ summary summary',
      (run copiedFiles copiedRoot copiedSettings).2.result = .ok summary ∧
      (run obstructedFiles copiedRoot copiedSettings).2.result = .ok summary' ∧
      summary'.failures = [.output "g/users/ada/1/matches.json" .isDirectory] ∧
      summary'.isSuccess = false ∧ summary'.overall = summary.overall ∧
      (run obstructedFiles copiedRoot copiedSettings).1.at? (copiedRoot / overallRankingFile) =
        (run copiedFiles copiedRoot copiedSettings).1.at? (copiedRoot / overallRankingFile) := by
  have hdiffer := differInObstructions_obstructedFiles
  obtain ⟨hreport, hisolated⟩ := output_failures_isolated copiedRoot copiedSettings
  obtain ⟨corpus, hload, hsources⟩ := exists_load_copiedFiles
  rcases hisolated copiedFiles obstructedFiles hdiffer with
    ⟨fault, hfault, -⟩ | ⟨corpus', summary, summary', hload', hload'', hrun, hrun', hsame⟩
  · exact absurd (hload.symm.trans (run_fault_iff.1 hfault)) (by simp)
  · obtain rfl : corpus = corpus' := Except.ok.inj (hload.symm.trans hload')
    obtain ⟨corpus', hload', hfull⟩ := (hreport obstructedFiles).2 summary' hrun'
    obtain rfl : corpus = corpus' := Except.ok.inj (hload''.symm.trans hload')
    have hfailures := hfull.failures
    rw [hsources] at hfailures
    have hada : obstructedFiles.firstFailure (copiedRoot / usersDirectory / "ada" / "1")
        submissionFiles = some (.output "g/users/ada/1/matches.json" .isDirectory) := rfl
    have hbob : obstructedFiles.firstFailure (copiedRoot / usersDirectory / "bob" / "1")
        submissionFiles = none := rfl
    have hlast : obstructedFiles.firstFailure copiedRoot [overallRankingFile] = none := rfl
    rw [copiedSources, List.filterMap_cons, List.filterMap_cons, hada, hbob, hlast] at hfailures
    have hsuccess : summary'.isSuccess = false := by
      rw [RunSummary.isSuccess, hfailures]
      rfl
    exact ⟨hdiffer, summary, summary', hrun, hrun', hfailures, hsuccess, hsame.overall,
      hsame.ranking⟩

end Resemblance
