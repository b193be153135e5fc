import Resemblance.Proofs.Region.Format
import Resemblance.Proofs.Run.Course

/-!
# What a run leaves behind

The sources of a corpus stand in directories of their own, so no two changes of a run are at the
same place.  Every one of them is therefore seen in the end: the files of a source are those of its
ledger unless they could not be written, and all other places are as before.  For the same reason a
second run, which takes the same course, has nothing left to change.

## What is here

* `OutputPlace` — the places of the output files of a run.
* `Course.changeable` — the changes of a run are at different places.
* `Course.agree` — nothing else is changed.
* `Delivered`, `Course.delivered` — the files of a source after a run.
* `run_outputs` — all of it, and what a second run does.
-/

set_option autoImplicit false
namespace Resemblance

open Resemblance.Tree

/-! ## Where outputs stand -/

/-- Whether a place is that of an output file: of the report of matches or the ranking of peers in
the directory of a source, or of the ranking of all students in the root. -/
def OutputPlace (t : Tree) (root : Path) (sources : List Source) (place : Place) : Prop :=
  (∃ source ∈ sources, ∃ directory, t.LeadsTo source.directory directory ∧
    (place = matchesFile :: directory ∨ place = peerRankingFile :: directory)) ∨
  ∃ directory, t.LeadsTo root directory ∧ place = overallRankingFile :: directory

namespace Course

variable {t : Tree} {root : Path} {s : Settings} (c : Course t root s)

/-- The place of a change of a step. -/
theorem place_of_mem_plan {source : Source} {z : Step} {place : Place}
    (hz : source.step c.corpus.reference s t = .ok z) (hd : t.LeadsTo source.directory place)
    {d : Change} (hmem : d ∈ z.plan.changes) :
    d.place = matchesFile :: place ∨ d.place = peerRankingFile :: place := by
  obtain ⟨_, _, _, _, hplan⟩ := Source.step_eq_ok hz
  rw [hplan] at hmem
  obtain ⟨o, ho, rfl⟩ := List.mem_map.1 ((changes_plan_isPrefix hd _).subset hmem)
  rcases List.mem_cons.1 ho with rfl | ho
  · exact .inl rfl
  · rw [List.mem_singleton.1 ho]
    exact .inr rfl

theorem tail_of_mem_plan {source : Source} {z : Step} {place : Place}
    (hz : source.step c.corpus.reference s t = .ok z) (hd : t.LeadsTo source.directory place)
    {d : Change} (hmem : d ∈ z.plan.changes) : d.place.tail = place := by
  rcases c.place_of_mem_plan hz hd hmem with h | h
  · rw [h]
    rfl
  · rw [h]
    rfl

/-! ## All changes are at different places -/

/-- The changes of one step are at different places. -/
theorem pairwise_plan {z : Step} (hz : z ∈ c.steps) :
    z.plan.changes.Pairwise fun a b => a.place ≠ b.place := by
  obtain ⟨source, _, place, hd, hplan⟩ := c.exists_plan_eq hz
  rw [hplan]
  refine List.Pairwise.sublist (changes_plan_isPrefix hd _).sublist ?_
  have hne : matchesFile ≠ peerRankingFile := by decide
  rw [Ledger.outputs, submissionOutputs]
  simpa [Output.changeAt] using hne

/-- The changes of different steps are at different places. -/
theorem pairwise_steps :
    c.steps.Pairwise fun z z' => ∀ a ∈ z.plan.changes, ∀ b ∈ z'.plan.changes, a.place ≠ b.place := by
  have hsources := List.Pairwise.and_mem.1 (pairwise_discover (Corpus.load_eq_ok c.load).2.1)
  refine pairwise_of_forall₂ c.step hsources fun source source' z z' hz hz' hmem a ha b hb heq => ?_
  obtain ⟨hsource, hsource', hne⟩ := hmem
  have hbelow := c.isBelow hsource
  have hbelow' := c.isBelow hsource'
  obtain ⟨place, hd⟩ := exists_leadsTo hbelow.isDirectory
  obtain ⟨place', hd'⟩ := exists_leadsTo hbelow'.isDirectory
  -- both changes are made in the directories of the sources
  have hplaces : place = place' := by
    rw [← c.tail_of_mem_plan hz hd ha, ← c.tail_of_mem_plan hz' hd' hb, heq]
  refine hne (hbelow.directory_eq hbelow' ?_)
  rw [← hd.eq_placeOf, ← hd'.eq_placeOf, hplaces]

/-- The changes of the steps and the one of the last file. -/
theorem pairwise_changes : c.changes.Pairwise fun a b => a.place ≠ b.place := by
  obtain ⟨place, hroot⟩ := c.exists_leadsTo_root
  have hlast := changes_plan_isPrefix hroot (runOutputs c.overall)
  rw [changes, List.pairwise_append, List.pairwise_flatMap]
  refine ⟨⟨fun z hz => c.pairwise_plan hz, c.pairwise_steps⟩, ?_, ?_⟩
  · refine List.Pairwise.sublist hlast.sublist ?_
    exact List.pairwise_singleton _ _
  · intro a ha b hb heq
    obtain ⟨z, hz, ha⟩ := List.mem_flatMap.1 ha
    obtain ⟨source, hsource, hstep⟩ := exists_of_forall₂ c.step hz
    obtain ⟨_, hd⟩ := exists_leadsTo (c.isBelow hsource).isDirectory
    obtain rfl := List.mem_singleton.1 (hlast.subset hb)
    -- the names of the files differ
    have hmatches : matchesFile ≠ overallRankingFile := by decide
    have hpeers : peerRankingFile ≠ overallRankingFile := by decide
    rcases c.place_of_mem_plan hstep hd ha with hplace | hplace
    · exact hmatches (List.cons.inj (hplace.symm.trans heq)).1
    · exact hpeers (List.cons.inj (hplace.symm.trans heq)).1

/-- **The changes of a run are made to files, each of them once.** -/
theorem changeable : t.Changeable c.changes := by
  obtain ⟨place, hroot⟩ := c.exists_leadsTo_root
  refine ⟨fun d hd => ?_, c.pairwise_changes⟩
  rcases List.mem_append.1 hd with hd | hd
  · exact c.isDirectoryAt_of_mem_steps d hd
  · exact isDirectoryAt_of_mem_plan hroot d hd

/-! ## Nothing else is changed -/

theorem outputPlace_of_mem {d : Change} (hd : d ∈ c.changes) :
    OutputPlace t root c.corpus.sources d.place := by
  rcases List.mem_append.1 hd with hd | hd
  · obtain ⟨z, hz, hd⟩ := List.mem_flatMap.1 hd
    obtain ⟨source, hsource, hstep⟩ := exists_of_forall₂ c.step hz
    obtain ⟨place, hplace⟩ := exists_leadsTo (c.isBelow hsource).isDirectory
    exact .inl ⟨source, hsource, place, hplace, c.place_of_mem_plan hstep hplace hd⟩
  · obtain ⟨place, hroot⟩ := c.exists_leadsTo_root
    obtain rfl := List.mem_singleton.1
      ((changes_plan_isPrefix hroot (runOutputs c.overall)).subset hd)
    exact .inr ⟨place, hroot, rfl⟩

/-- **A run changes no other place.** -/
theorem agree : AgreeOutside (OutputPlace t root c.corpus.sources) t (t.changeAll c.changes) := by
  refine (agreeOutside_changeAll c.changeable.file).mono ?_
  rintro place ⟨d, hd, rfl⟩
  exact c.outputPlace_of_mem hd

/-- The places of output files have the names of such files. -/
theorem isOutput_of_outputPlace {sources : List Source} {place : Place}
    (h : OutputPlace t root sources place) : IsOutput place := by
  rcases h with ⟨_, _, directory, _, rfl | rfl⟩ | ⟨directory, _, rfl⟩
  · exact ⟨matchesFile, by decide, directory, rfl⟩
  · exact ⟨peerRankingFile, by decide, directory, rfl⟩
  · exact ⟨overallRankingFile, by decide, directory, rfl⟩

/-! ## The second run -/

/-- The course is the same when other output files were written. -/
def transfer {u : Tree} (h : AgreeOutside IsOutput t u) : Course u root s where
  corpus := c.corpus
  load := by rw [Corpus.load_eq h not_isOutput_fingerprintFile, c.load]
  steps := c.steps
  step := forall₂_imp_of_mem c.step fun _ hsource _ _ hz =>
    (Source.step_eq h (c.isBelow hsource)).trans hz

theorem lastPlan_transfer {u : Tree} (h : AgreeOutside IsOutput t u) :
    (c.transfer h).lastPlan = c.lastPlan := by
  obtain ⟨place, hroot⟩ := c.exists_leadsTo_root
  exact h.plan_eq hroot _

/-- **A second run changes nothing and returns the same.** -/
theorem run_again :
    run (t.changeAll c.changes) root s = (t.changeAll c.changes, (run t root s).2) := by
  have h := c.agree.mono fun _ => isOutput_of_outputPlace
  have hchanges : (c.transfer h).changes = c.changes := by
    rw [changes, c.lastPlan_transfer h]
    rfl
  have hnotices : (c.transfer h).notices = c.notices := by
    rw [notices, c.lastPlan_transfer h]
    rfl
  have hsummary : (c.transfer h).summary = c.summary := by
    rw [summary, c.lastPlan_transfer h]
    rfl
  rw [(c.transfer h).run_eq, hchanges, hnotices, hsummary, changeAll_changeAll c.changeable,
    Corpus.load_eq h not_isOutput_fingerprintFile, c.run_eq]

/-! ## Contents -/

/-- Every change of a run is seen in the end. -/
theorem node?_changeAll_changes {d : Change} (hd : d ∈ c.changes) :
    (t.changeAll c.changes).node? d.place = d.node? :=
  node?_changeAll c.changeable d hd

/-- A path that leads to a directory does so after the run. -/
theorem leadsTo_changeAll {directory : Path} {place : Place} (hd : t.LeadsTo directory place) :
    (t.changeAll c.changes).LeadsTo directory place :=
  c.agree.leadsTo hd

/-- A file that was written holds its text. -/
theorem readText_changeAll {directory : Path} {place : Place} (hd : t.LeadsTo directory place)
    {name text : String} {q : Place} (htarget : t.target directory name = .ok q)
    (hname : name.utf8ByteSize ≤ nameLimit) (hmem : ⟨name :: place, some text⟩ ∈ c.changes) :
    (t.changeAll c.changes).readText (directory / name) = .ok text :=
  (c.leadsTo_changeAll hd).readText_eq (target_eq_ok hd htarget).1 hname
    (c.node?_changeAll_changes hmem)

/-- A file that was removed is not there. -/
theorem locate_changeAll {directory : Path} {place : Place} (hd : t.LeadsTo directory place)
    {name : String} {q : Place} (htarget : t.target directory name = .ok q)
    (hname : name.utf8ByteSize ≤ nameLimit) (hmem : ⟨name :: place, none⟩ ∈ c.changes) :
    (t.changeAll c.changes).locate (directory / name) = .error .notFound := by
  have hnode : (t.changeAll c.changes).node? (name :: place) = none :=
    c.node?_changeAll_changes hmem
  rw [(c.leadsTo_changeAll hd).locate_child (target_eq_ok hd htarget).1 hname, hnode]
  rfl

end Course

/-! ## The files of a source -/

/-- The files of a source after a run: those of its ledger, unless they could not be written. -/
structure Delivered (t u : Tree) (r : Reference) (s : Settings) (source : Source) (l : Ledger)
    (failure : Option Fault) : Prop where
  ledger : ∃ submission, source.load t = .ok submission ∧
    l = classify r submission s.gradeable.hashSize
  /-- There is a report of a suspicious submission, and it is read back as the regions. -/
  report : failure = none → l.hasSuspicion = true →
    let regions := l.regions s.gradeable.hashSize s.engine.positionCap
    u.readText (source.directory / matchesFile) = .ok (Region.report regions) ∧
      Region.ofReport? (Region.report regions) = some regions
  /-- There is no report of another submission, even if there was one before. -/
  noReport : failure = none → l.hasSuspicion = false →
    u.locate (source.directory / matchesFile) = .error .notFound
  peers : failure = none →
    u.readText (source.directory / peerRankingFile) = .ok (Report.peers l.rankPeers)
  /-- A failure tells which of the files could not be written. -/
  failed : ∀ fault, failure = some fault → ∃ name ∈ [matchesFile, peerRankingFile], ∃ e,
    t.target source.directory name = .error e ∧ fault = .output (source.directory / name).text e

/-- Where both files may be written, nothing fails. -/
theorem Delivered.failure_eq_none {t u : Tree} {r : Reference} {s : Settings} {source : Source}
    {l : Ledger} {failure : Option Fault} (h : Delivered t u r s source l failure)
    (hfree : ∀ name ∈ [matchesFile, peerRankingFile],
      (t.target source.directory name).toOption.isSome = true) : failure = none := by
  refine Option.eq_none_iff_forall_ne_some.2 fun fault hfault => ?_
  obtain ⟨name, hname, e, he, -⟩ := h.failed fault hfault
  have hsome := hfree name hname
  rw [he] at hsome
  cases hsome

namespace Course

variable {t : Tree} {root : Path} {s : Settings} (c : Course t root s)

/-- **The files of a source are those of its ledger.** -/
theorem delivered {source : Source} (hsource : source ∈ c.corpus.sources) {z : Step}
    (hz : z ∈ c.steps) (hstep : source.step c.corpus.reference s t = .ok z) :
    Delivered t (t.changeAll c.changes) c.corpus.reference s source z.ledger z.plan.failure := by
  obtain ⟨place, hd⟩ := exists_leadsTo (c.isBelow hsource).isDirectory
  obtain ⟨submission, hload, -, hledger, hplan⟩ := Source.step_eq_ok hstep
  -- without a failure both changes are among those of the run
  have hwritten : z.plan.failure = none → ∀ o ∈ z.ledger.outputs s,
      (∃ q, t.target source.directory o.name = .ok q) ∧ o.changeAt place ∈ c.changes := by
    intro hnone o ho
    rw [hplan] at hnone
    have hmem : o.changeAt place ∈ z.plan.changes := by
      rw [hplan, changes_plan_eq hd hnone]
      exact List.mem_map_of_mem ho
    exact ⟨failure_plan_eq_none_iff.1 hnone o ho,
      List.mem_append_left _ (List.mem_flatMap.2 ⟨z, hz, hmem⟩)⟩
  have hmatches := fun hnone => hwritten hnone _ List.mem_cons_self
  have hranking := fun hnone => hwritten hnone _ (List.mem_cons_of_mem _ List.mem_cons_self)
  refine ⟨⟨submission, hload, hledger⟩, fun hnone hsuspicion => ⟨?_, ?_⟩, fun hnone hsuspicion => ?_,
    fun hnone => ?_, fun fault hfault => ?_⟩
  · obtain ⟨⟨q, hq⟩, hmem⟩ := hmatches hnone
    refine c.readText_changeAll hd hq (by decide) ?_
    rw [Ledger.reported, if_pos hsuspicion] at hmem
    exact hmem
  · exact Region.ofReport?_report _
  · obtain ⟨⟨q, hq⟩, hmem⟩ := hmatches hnone
    refine c.locate_changeAll hd hq (by decide) ?_
    rw [Ledger.reported, if_neg (by simp [hsuspicion])] at hmem
    exact hmem
  · obtain ⟨⟨q, hq⟩, hmem⟩ := hranking hnone
    exact c.readText_changeAll hd hq (by decide) hmem
  · rw [hplan] at hfault
    obtain ⟨o, ho, e, htarget, hwhy⟩ := exists_of_failure_plan hfault
    refine ⟨o.name, ?_, e, htarget, hwhy⟩
    exact List.mem_map_of_mem (f := Output.name) ho

theorem forall₂_delivered :
    List.Forall₂ (fun source (x : Ledger × Option Fault) =>
      Delivered t (t.changeAll c.changes) c.corpus.reference s source x.1 x.2)
      c.corpus.sources (c.steps.map fun z => (z.ledger, z.plan.failure)) := by
  rw [List.forall₂_map_right_iff]
  exact forall₂_imp_of_mem c.step fun _ hsource _ hz hstep => c.delivered hsource hz hstep

/-- The ranking of all students is written, unless its file may not be. -/
theorem readText_overall (hnone : c.lastPlan.failure = none) :
    (t.changeAll c.changes).readText (root / overallRankingFile) =
      .ok (Report.overall c.overall) := by
  obtain ⟨place, hroot⟩ := c.exists_leadsTo_root
  obtain ⟨q, hq⟩ := failure_plan_eq_none_iff.1 hnone _ List.mem_cons_self
  refine c.readText_changeAll hroot hq (by decide) (List.mem_append_right _ ?_)
  rw [lastPlan, changes_plan_eq hroot hnone]
  exact List.mem_cons_self

end Course

/-- **What a successful run leaves behind.**  The files of every source are those of its ledger
unless one of them could not be written, and every report is read back as the regions.  The ranking
of all students is that of all ledgers, whether or not their own files could be written.  The
summary counts the submissions with suspicious positions and lists the failures in order, that of
the ranking last.  Nothing else in the tree is changed.  And running again changes nothing and
returns the same. -/
theorem run_outputs {t : Tree} {root : Path} {s : Settings} {summary : RunSummary}
    (h : (run t root s).2.result = .ok summary) :
    ∃ (corpus : Corpus) (delivered : List (Ledger × Option Fault)) (last : Option Fault),
      (Corpus.load t root s.gradeable).result = .ok corpus ∧
      List.Forall₂ (fun source x =>
        Delivered t (run t root s).1 corpus.reference s source x.1 x.2) corpus.sources delivered ∧
      (last = none → (run t root s).1.readText (root / overallRankingFile) =
        .ok (Report.overall summary.overall)) ∧
      (∀ fault, last = some fault → ∃ e, t.target root overallRankingFile = .error e ∧
        fault = .output (root / overallRankingFile).text e) ∧
      summary.submissions = delivered.length ∧
      summary.withMatches = delivered.countP (·.1.hasSuspicion) ∧
      summary.failures = delivered.filterMap (·.2) ++ last.toList ∧
      summary.overall = rankOverall (delivered.map (·.1.summary)) s.engine.weights ∧
      AgreeOutside (OutputPlace t root corpus.sources) t (run t root s).1 ∧
      run (run t root s).1 root s = run t root s := by
  cases hload : (Corpus.load t root s.gradeable).result with
  | error fault => exact absurd h (by simp [run_of_fault hload])
  | ok corpus =>
    obtain ⟨c, rfl⟩ := exists_course hload
    rw [c.run_eq] at h
    obtain rfl := Except.ok.inj h
    have hfst : (run t root s).1 = t.changeAll c.changes := by rw [c.run_eq]
    rw [hfst]
    refine ⟨c.corpus, c.steps.map fun z => (z.ledger, z.plan.failure), c.lastPlan.failure, rfl,
      c.forall₂_delivered, c.readText_overall, ?_, ?_, ?_, ?_, ?_, c.agree, ?_⟩
    · intro fault hfault
      obtain ⟨o, ho, e, htarget, hwhy⟩ := exists_of_failure_plan hfault
      obtain rfl := List.mem_singleton.1 ho
      exact ⟨e, htarget, hwhy⟩
    · rw [List.length_map]
      rfl
    · rw [List.countP_map]
      rfl
    · rw [List.filterMap_map]
      rfl
    · rw [List.map_map]
      rfl
    · rw [c.run_again, c.run_eq]

/-- A gradeable for which two students handed in the same. -/
def copiedFiles : Tree where
  start := []
  nodes := .ofList [
    (["g"], .directory), (["users", "g"], .directory),
    (["ada", "users", "g"], .directory), (["1", "ada", "users", "g"], .directory),
    (["hashes.txt", "1", "ada", "users", "g"], .file "7 8".toUTF8),
    (["bob", "users", "g"], .directory), (["1", "bob", "users", "g"], .directory),
    (["hashes.txt", "1", "bob", "users", "g"], .file "7 8".toUTF8)] compare

def copiedRoot : Path := .given "g"

def copiedSettings : Settings :=
  ⟨{ semester := "s", course := "c", gradeable := "hw", providedCodeEnabled := false }, {}⟩

def copiedSources : List Source :=
  [⟨"ada", 1, copiedRoot / usersDirectory / "ada" / "1"⟩,
    ⟨"bob", 1, copiedRoot / usersDirectory / "bob" / "1"⟩]

theorem discover_copiedFiles :
    (discover copiedFiles (copiedRoot / usersDirectory)).result = .ok copiedSources := by
  have hstudents : (listDirectories copiedFiles (copiedRoot / usersDirectory)).result =
      .ok ["ada", "bob"] := toOption_eq_some_iff.1 (by decide +kernel)
  have hversion : ∀ student ∈ ["ada", "bob"],
      (discoverStudent copiedFiles (copiedRoot / usersDirectory) student).result =
        .ok [⟨student, 1, copiedRoot / usersDirectory / student / "1"⟩] := by
    intro student hstudent
    have hnames : (listDirectories copiedFiles (copiedRoot / usersDirectory / student)).result =
        .ok ["1"] := by
      revert student
      simp only [← toOption_eq_some_iff]
      decide +kernel
    have hfound : (Logged.each (inspectVersion copiedFiles student
        (copiedRoot / usersDirectory / student)) ["1"]).result =
          .ok [some ⟨student, 1, copiedRoot / usersDirectory / student / "1"⟩] := by
      revert student
      simp only [← toOption_eq_some_iff]
      decide +kernel
    exact discoverStudent_of_ascending hnames hfound (List.pairwise_singleton _ _)
  exact discover_of_forall₂ hstudents
    (.cons (hversion "ada" (by decide)) (.cons (hversion "bob" (by decide)) .nil))

def copiedSubmissions : List Submission :=
  [⟨"ada", 1, #[7, 8]⟩, ⟨"bob", 1, #[7, 8]⟩]

def copiedReference : Reference where
  current := .ofSubmissions copiedSettings.gradeable.label copiedSubmissions
  provided := none
  others := []
  threshold := copiedSettings.gradeable.threshold

theorem load_copiedFiles :
    (Corpus.load copiedFiles copiedRoot copiedSettings.gradeable).result =
      .ok ⟨copiedReference, copiedSources⟩ := by
  have hload : (copiedSources.mapM fun source : Source => source.load copiedFiles) =
      .ok copiedSubmissions := toOption_eq_some_iff.1 (by decide +kernel)
  exact Corpus.load_of_discover (by decide +kernel) (by decide +kernel) (by decide +kernel) rfl
    discover_copiedFiles hload

theorem exists_load_copiedFiles :
    ∃ corpus, (Corpus.load copiedFiles copiedRoot copiedSettings.gradeable).result = .ok corpus ∧
      corpus.sources = copiedSources :=
  ⟨_, load_copiedFiles, rfl⟩

/-- All of what the first student handed in is also that of the second one. -/
theorem regions_copied :
    (classify copiedReference ⟨"ada", 1, #[7, 8]⟩ 1).regions 1 100 =
      [⟨1, 2, .matched [⟨⟨"bob", 1, "s__c__hw"⟩, [⟨1, 2⟩]⟩]⟩] := by
  let l := classify copiedReference ⟨"ada", 1, #[7, 8]⟩ 1
  -- one region for each position, before they are sorted and merged
  let shared (p : Position) : Region :=
    .single p (.matched [⟨⟨"bob", 1, "s__c__hw"⟩, [⟨p, p⟩]⟩])
  have hpositions : (l.suspicious.toList.map fun entry => Region.single entry.1
      (.matched (Group.ofLocations 1 100 entry.2.locations.toList))) ++
        l.common.toList.map (Region.single · .common) ++
          l.provided.toList.map (Region.single · .provided) = [shared 1, shared 2] := by
    decide +kernel
  rw [Ledger.regions, Ledger.positionRegions, hpositions, List.mergeSort_of_pairwise (by decide)]
  decide +kernel

theorem run_outputs_copied :
    ∃ summary text, (run copiedFiles copiedRoot copiedSettings).2.result = .ok summary ∧
      summary.submissions = 2 ∧
      (run copiedFiles copiedRoot copiedSettings).1.readText
        (copiedRoot / usersDirectory / "ada" / "1" / matchesFile) = .ok text ∧
      Region.ofReport? text = some [⟨1, 2, .matched [⟨⟨"bob", 1, "s__c__hw"⟩, [⟨1, 2⟩]⟩]⟩] ∧
      AgreeOutside (OutputPlace copiedFiles copiedRoot copiedSources) copiedFiles
        (run copiedFiles copiedRoot copiedSettings).1 ∧
      run (run copiedFiles copiedRoot copiedSettings).1 copiedRoot copiedSettings =
        run copiedFiles copiedRoot copiedSettings := by
  obtain ⟨c, -⟩ := exists_course load_copiedFiles
  have hresult : (run copiedFiles copiedRoot copiedSettings).2.result = .ok c.summary := by
    rw [c.run_eq]
  obtain ⟨corpus, delivered, _, hload, hdelivered, -, -, hcount, -, -, -, hagree, hagain⟩ :=
    run_outputs hresult
  obtain rfl := Except.ok.inj (load_copiedFiles.symm.trans hload)
  have hsubmissions := hcount.trans hdelivered.length_eq.symm
  obtain ⟨x, -, hada, -, -⟩ := List.forall₂_cons_left_iff.1 hdelivered
  have hwritten : x.2 = none := hada.failure_eq_none (by decide +kernel)
  obtain ⟨submission, hread, hledger⟩ := hada.ledger
  have hsubmission : (⟨"ada", 1, copiedRoot / usersDirectory / "ada" / "1"⟩ : Source).load
      copiedFiles = .ok ⟨"ada", 1, #[7, 8]⟩ := toOption_eq_some_iff.1 (by decide +kernel)
  obtain rfl := Except.ok.inj (hread.symm.trans hsubmission)
  have hsuspicion : x.1.hasSuspicion = true := by
    rw [hledger]
    decide +kernel
  obtain ⟨htext, hregions⟩ := hada.report hwritten hsuspicion
  refine ⟨c.summary, _, hresult, hsubmissions, htext, hregions.trans ?_, hagree, hagain⟩
  rw [hledger]
  exact congrArg some regions_copied

end Resemblance
