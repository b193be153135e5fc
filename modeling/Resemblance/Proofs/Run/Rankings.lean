import Resemblance.Proofs.Corpus.Identity
import Resemblance.Proofs.Ranking.Lines
import Resemblance.Proofs.Ranking.Overall
import Resemblance.Proofs.Ranking.Peers
import Resemblance.Proofs.Run.Failures
import Resemblance.Proofs.Run.Outputs

/-!
# The rankings of a run, line by line

The names in the rankings of a run are those of the directories that were loaded, and nothing is
asked of them.  So the file of a ranking has one line for each standing exactly when no directory it
names has a line feed in its name; and when one has, a line may be anything that the name says.

## What is here

* `Course.map_student_overall` — the overall ranking names the students of the sources.
* `Corpus.exists_loadedAs_of_mem_rankPeers` — a ranking of peers names peers that were loaded.
* `rankings_in_lines` — the rankings that a run makes, and their files.
* `forgedFiles` — a gradeable of one student, with the ranking of two.
-/

set_option autoImplicit false
namespace Resemblance

open Resemblance.Tree

/-! ## Names -/

/-- A standing of the overall ranking is that of a version. -/
theorem exists_of_mem_rankOverall {summaries : List Summary} {weights : Weights} {x : Standing}
    (hx : x ∈ rankOverall summaries weights) :
    ∃ s ∈ summaries, x = s.standing weights (mostMatched summaries) := by
  obtain ⟨s, hs, rfl⟩ := List.mem_map.1 ((rankOverall_perm summaries weights).mem_iff.1 hx)
  obtain ⟨student, hs⟩ := mem_values_iff.1 hs
  exact ⟨s, (mem_of_getElem?_bestVersions hs).1, rfl⟩

/-- A standing without gradeable names the student only. -/
theorem Standing.isOneLine_iff {x : Standing} (h : x.gradeable = none) :
    x.IsOneLine ↔ '\n' ∉ x.student.toList := by
  rw [IsOneLine, names, h, Option.toList_none, List.forall_mem_singleton]

/-- **A ranking of peers names peers that were loaded.** -/
theorem Corpus.exists_loadedAs_of_mem_rankPeers {t : Tree} {root : Path}
    {settings : Settings.Gradeable} {corpus : Corpus}
    (h : (Corpus.load t root settings).result = .ok corpus) {submission : Submission} {width : Nat}
    {x : Standing} (hx : x ∈ (classify corpus.reference submission width).rankPeers) :
    ∃ peer file, x.peer? = some peer ∧ LoadedAs t root settings peer file := by
  obtain ⟨peer, n, hn, rfl⟩ := (Ledger.mem_rankPeers_iff _ x).1 hx
  have hcounted : (classify corpus.reference submission width).Counted :=
    Ledger.counted_recordAll submission width _
  -- a fingerprint that the peer shares is cited from one of its places
  obtain ⟨hpos, rfl⟩ := (hcounted.mem_matched_iff peer n).1 hn
  obtain ⟨f, hf⟩ := List.exists_mem_of_length_pos hpos
  obtain ⟨p, hit, hhit, hnames, -⟩ := (Ledger.mem_shared_iff _ peer f).1 hf
  obtain ⟨place, hplace, rfl⟩ := (hit.names_iff peer).1 hnames
  obtain ⟨f', -, hindex⟩ := mem_locations_of_cites ⟨hit, hhit, hplace⟩
  obtain ⟨file, hloaded, -⟩ := (mem_locations_iff_loadedAs h f' place).1 hindex
  exact ⟨place.peer, file, Standing.peer?_standing _ _ _, hloaded⟩

/-- The summary of a step bears the student and the version of the source. -/
theorem Source.summary_eq_of_step {r : Reference} {s : Settings} {t : Tree} {source : Source}
    {z : Step} (h : source.step r s t = .ok z) :
    z.ledger.summary.student = source.student ∧ z.ledger.summary.version = source.version := by
  obtain ⟨submission, hload, -, hledger, -⟩ := step_eq_ok h
  rw [hledger, Ledger.summary, submission_classify]
  exact student_of_load hload

namespace Course

variable {t : Tree} {root : Path} {s : Settings} (c : Course t root s)

/-- A standing of the overall ranking names a source. -/
theorem exists_source_of_mem_overall {x : Standing} (hx : x ∈ c.overall) :
    ∃ source ∈ c.corpus.sources,
      x.student = source.student ∧ x.version = source.version ∧ x.gradeable = none := by
  obtain ⟨summary, hsummary, rfl⟩ := exists_of_mem_rankOverall hx
  obtain ⟨z, hz, rfl⟩ := List.mem_map.1 hsummary
  obtain ⟨source, hsource, hstep⟩ := exists_of_forall₂ c.step hz
  obtain ⟨hstudent, hversion⟩ := Source.summary_eq_of_step hstep
  exact ⟨source, hsource, hstudent, hversion, rfl⟩

theorem gradeable_of_mem_overall {x : Standing} (hx : x ∈ c.overall) : x.gradeable = none := by
  obtain ⟨_, _, _, _, hgradeable⟩ := c.exists_source_of_mem_overall hx
  exact hgradeable

/-- The overall ranking names the students of the sources, each once. -/
theorem map_student_overall :
    (c.overall.map Standing.student).Perm (c.corpus.sources.map Source.student).dedup := by
  have hstudents : (c.steps.map (·.ledger.summary)).map Summary.student =
      c.corpus.sources.map Source.student := by
    rw [List.map_map]
    refine (map_eq_of_forall₂ c.step fun source _ z hz => ?_).symm
    exact (Source.summary_eq_of_step hz).1.symm
  rw [← hstudents]
  exact map_student_rankOverall_perm _ _

/-- The standings of the overall ranking fit on one line exactly when the students of the sources
do. -/
theorem isOneLine_overall_iff :
    (∀ x ∈ c.overall, x.IsOneLine) ↔
      ∀ source ∈ c.corpus.sources, '\n' ∉ source.student.toList := by
  have hmem : ∀ name, name ∈ c.overall.map Standing.student ↔
      name ∈ c.corpus.sources.map Source.student := fun name => by
    rw [c.map_student_overall.mem_iff, List.mem_dedup]
  calc (∀ x ∈ c.overall, x.IsOneLine)
      ↔ ∀ x ∈ c.overall, '\n' ∉ x.student.toList :=
        forall₂_congr fun x hx => Standing.isOneLine_iff (c.gradeable_of_mem_overall hx)
    _ ↔ ∀ name ∈ c.overall.map Standing.student, '\n' ∉ name.toList := by
        rw [List.forall_mem_map]
    _ ↔ ∀ name ∈ c.corpus.sources.map Source.student, '\n' ∉ name.toList :=
        forall_congr' fun name => by rw [hmem]
    _ ↔ ∀ source ∈ c.corpus.sources, '\n' ∉ source.student.toList := by
        rw [List.forall_mem_map]

/-- The ranking of the peers of a source is written, unless one of its files may not be. -/
theorem readText_peers {source : Source} (hsource : source ∈ c.corpus.sources) :
    ∃ submission, source.load t = .ok submission ∧
      (t.firstFailure source.directory submissionFiles = none →
        (t.changeAll c.changes).readText (source.directory / peerRankingFile) =
          .ok (Report.peers
            (classify c.corpus.reference submission s.gradeable.hashSize).rankPeers)) := by
  obtain ⟨z, hz, hstep⟩ := exists_mem_of_forall₂ c.step hsource
  have hdelivered := c.delivered hsource hz hstep
  obtain ⟨submission, hload, hledger⟩ := hdelivered.ledger
  refine ⟨submission, hload, fun hnone => ?_⟩
  rw [← hledger]
  exact hdelivered.peers ((Source.failure_step_eq hstep).trans hnone)

end Course

/-! ## Rankings in lines -/

/-- **The rankings of a run have one line for each standing exactly when no name in them has a line
feed.**  Every line feed in a name makes one line more.  The overall ranking names the students of
the sources, so it has one line for each exactly when no directory of such a student has a line feed
in its name.  The ranking of the peers of a source names peers that were loaded, whose students and
gradeables are directories too, or the label of the settings.  The file of a ranking holds this text,
unless one of the output files of the directory may not be written. -/
theorem rankings_in_lines {t : Tree} {root : Path} {s : Settings} {summary : RunSummary}
    (h : (run t root s).2.result = .ok summary) :
    ∃ corpus, (Corpus.load t root s.gradeable).result = .ok corpus ∧
      Report.InLines Report.overallLine summary.overall (Report.overall summary.overall) ∧
      (t.firstFailure root [overallRankingFile] = none →
        (run t root s).1.readText (root / overallRankingFile) =
          .ok (Report.overall summary.overall)) ∧
      ((∀ x ∈ summary.overall, x.IsOneLine) ↔
        ∀ source ∈ corpus.sources, '\n' ∉ source.student.toList) ∧
      ∀ source ∈ corpus.sources, ∃ submission, source.load t = .ok submission ∧
        let peers := (classify corpus.reference submission s.gradeable.hashSize).rankPeers
        Report.InLines Report.peerLine peers (Report.peers peers) ∧
        (t.firstFailure source.directory submissionFiles = none →
          (run t root s).1.readText (source.directory / peerRankingFile) =
            .ok (Report.peers peers)) ∧
        ∀ x ∈ peers, ∃ peer file, x.peer? = some peer ∧ LoadedAs t root s.gradeable peer file := by
  obtain ⟨c, htree, rfl⟩ := exists_course_of_run h
  rw [htree]
  refine ⟨c.corpus, c.load, ?_, ?_, c.isOneLine_overall_iff, fun source hsource => ?_⟩
  · exact Report.inLines_overall fun x hx => c.gradeable_of_mem_overall hx
  · intro hnone
    exact c.readText_overall (c.failure_lastPlan_eq.trans hnone)
  · obtain ⟨submission, hload, hfile⟩ := c.readText_peers hsource
    exact ⟨submission, hload, Report.inLines_peers _, hfile,
      fun x hx => Corpus.exists_loadedAs_of_mem_rankPeers c.load hx⟩

theorem rankings_in_lines_copied :
    ∃ summary, (run copiedFiles copiedRoot copiedSettings).2.result = .ok summary ∧
      ∃ text, (run copiedFiles copiedRoot copiedSettings).1.readText
          (copiedRoot / overallRankingFile) = .ok text ∧
        Text.lines text = summary.overall.map Report.overallLine ∧
      ∀ source ∈ copiedSources, ∃ peers,
        (run copiedFiles copiedRoot copiedSettings).1.readText
            (source.directory / peerRankingFile) = .ok (Report.peers peers) ∧
          Report.InLines Report.peerLine peers (Report.peers peers) := by
  obtain ⟨corpus, hload, hsources⟩ := exists_load_copiedFiles
  obtain ⟨c, -⟩ := exists_course hload
  have hresult : (run copiedFiles copiedRoot copiedSettings).2.result = .ok c.summary := by
    rw [c.run_eq]
  obtain ⟨corpus', hload', hlines, hfile, honeLine, hpeers⟩ := rankings_in_lines hresult
  obtain rfl : corpus = corpus' := Except.ok.inj (hload.symm.trans hload')
  rw [hsources] at honeLine hpeers
  have hroot : (copiedFiles.firstFailure copiedRoot [overallRankingFile]).isNone = true := by
    decide +kernel
  have hfree : ∀ source ∈ copiedSources,
      (copiedFiles.firstFailure source.directory submissionFiles).isNone = true := by
    decide +kernel
  refine ⟨c.summary, hresult, _, hfile (Option.isNone_iff_eq_none.1 hroot),
    hlines.lines_eq_iff.2 (honeLine.2 (by decide)), fun source hsource => ?_⟩
  obtain ⟨submission, -, hlines, hfile, -⟩ := hpeers source hsource
  exact ⟨_, hfile (Option.isNone_iff_eq_none.1 (hfree source hsource)), hlines⟩

/-! ## A line of nobody -/

/-- The name of a student, made up so that the line of another one follows. -/
def forgedName : String :=
  "ann\n  0.00%   bob            "

/-- The line of a student who is not there. -/
def forgedLine : String := Report.overallLine ⟨"bob", 1, none, 0, none⟩

/-- A gradeable of one student. -/
def forgedFiles : Tree where
  start := []
  nodes := .ofList [
    (["g"], .directory), (["users", "g"], .directory), ([forgedName, "users", "g"], .directory),
    (["1", forgedName, "users", "g"], .directory),
    (["hashes.txt", "1", forgedName, "users", "g"], .file "7".toUTF8)] compare

def forgedRoot : Path := .given "g"

def forgedSettings : Settings :=
  ⟨{ semester := "s", course := "c", gradeable := "hw", providedCodeEnabled := false }, {}⟩

def forgedSources : List Source :=
  [⟨forgedName, 1, forgedRoot / usersDirectory / forgedName / "1"⟩]

theorem exists_load_forgedFiles :
    ∃ corpus, (Corpus.load forgedFiles forgedRoot forgedSettings.gradeable).result = .ok corpus ∧
      corpus.sources = forgedSources := by
  have hstudents : (listDirectories forgedFiles (forgedRoot / usersDirectory)).result =
      .ok [forgedName] := toOption_eq_some_iff.1 (by decide +kernel)
  have hnames : (listDirectories forgedFiles (forgedRoot / usersDirectory / forgedName)).result =
      .ok ["1"] := toOption_eq_some_iff.1 (by decide +kernel)
  have hfound : (Logged.each (inspectVersion forgedFiles forgedName
      (forgedRoot / usersDirectory / forgedName)) ["1"]).result = .ok (forgedSources.map some) :=
    toOption_eq_some_iff.1 (by decide +kernel)
  have hsources : (discover forgedFiles (forgedRoot / usersDirectory)).result =
      .ok forgedSources :=
    discover_of_forall₂ hstudents
      (.cons (discoverStudent_of_ascending hnames hfound (by decide)) .nil)
  have hload : (forgedSources.mapM fun source : Source => source.load forgedFiles) =
      .ok [⟨forgedName, 1, #[7]⟩] := toOption_eq_some_iff.1 (by decide +kernel)
  exact ⟨_, Corpus.load_of_discover (by decide +kernel) (by decide +kernel) (by decide +kernel) rfl
    hsources hload, rfl⟩

/-- The line of a standing under the forged name ends in the forged one. -/
theorem forgedLine_mem_parts {x : Standing} (hstudent : x.student = forgedName)
    (hversion : x.version = 1) : forgedLine ∈ Text.parts (Report.overallLine x) := by
  have hcolumns : Report.alignLeft 15 forgedName ++ "   " ++
      Report.alignRight 3 (toString (1 : Version).toNat) =
        "ann" ++ "\n" ++ forgedLine := by decide +kernel
  have hline : Report.overallLine x =
      Report.alignRight 6 (Decimal.fixed 2 x.percent.toFloat) ++ "%   " ++ "ann" ++ "\n" ++
        forgedLine := by
    simp only [Report.overallLine, hstudent, hversion, String.append_assoc] at hcolumns ⊢
    rw [hcolumns]
  rw [hline, Text.parts_append]
  refine List.mem_append_right _ ?_
  rw [Text.parts_of_lineFeeds_eq_zero (by decide +kernel)]
  exact List.mem_singleton_self _

/-- The ranking of one student may have two lines, one of them that of a student who is not
there. -/
theorem exists_line_of_nobody :
    ∃ summary text, (run forgedFiles forgedRoot forgedSettings).2.result = .ok summary ∧
      (run forgedFiles forgedRoot forgedSettings).1.readText (forgedRoot / overallRankingFile) =
        .ok text ∧
      summary.overall.map Standing.student = [forgedName] ∧
      (Text.lines text).length = 2 ∧ forgedLine ∈ Text.lines text := by
  obtain ⟨corpus, hload, hsources⟩ := exists_load_forgedFiles
  obtain ⟨c, rfl⟩ := exists_course hload
  have hstudents : c.overall.map Standing.student = [forgedName] := by
    have hperm := c.map_student_overall
    rw [hsources] at hperm
    exact List.perm_singleton.1 hperm
  obtain ⟨x, hx, hstudent⟩ := List.map_eq_singleton_iff.1 hstudents
  obtain ⟨source, hsource, -, hversion, hgradeable⟩ :=
    c.exists_source_of_mem_overall (hx ▸ List.mem_singleton_self x)
  rw [hsources, forgedSources, List.mem_singleton] at hsource
  rw [hsource] at hversion
  have hfree : (forgedFiles.firstFailure forgedRoot [overallRankingFile]).isNone = true := by
    decide +kernel
  have hfile := c.readText_overall
    (c.failure_lastPlan_eq.trans (Option.isNone_iff_eq_none.1 hfree))
  refine ⟨c.summary, Report.overall c.overall, by rw [c.run_eq], by rw [c.run_eq, hfile],
    hstudents, ?_, ?_⟩
  · rw [(Report.inLines_overall fun y hy => c.gradeable_of_mem_overall hy).length_eq, hx,
      List.length_singleton, List.flatMap_singleton, Standing.names, hgradeable, hstudent]
    decide +kernel
  · rw [hx, Report.overall, Report.lines_ofLines, List.map_singleton, List.flatMap_singleton]
    exact forgedLine_mem_parts hstudent hversion

end Resemblance
