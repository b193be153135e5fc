import Resemblance.Corpus
import Resemblance.Ranking.Report
import Resemblance.Region.Format
import Resemblance.Region.OfLedger
import Resemblance.Settings.Load

/-!
# A run over a gradeable

A run loads the corpus, compares every submission with it, writes a report of its matches and a
ranking of its peers into its directory, and in the end ranks all students.  A fault in the input
ends the run before anything is written.  A file that cannot be written does not end it; such
failures are collected.

## What is here

* `writeOutputs` — the files of one submission.  A submission without suspicion has no report, and
  one from an earlier run is removed.
* `Outcome` and `deliver` — what is left of a submission after its files were written.
* `RunSummary` and `finish` — what is left of a run.
* `Workings` and `Workings.run` — a run, whatever it computes from what it has read.
* `process`, `processAll`, `conclude`, `run` — the run itself, with one lemma for each way it may
  go.
-/

set_option autoImplicit false
namespace Resemblance

/-! ## Output files -/

/-- The report of matches of a submission. -/
def matchesFile : String := "matches.json"

/-- The ranking of the peers of a submission. -/
def peerRankingFile : String := "ranking.txt"

/-- The ranking of all students. -/
def overallRankingFile : String := "overall_ranking.txt"

/-- A change of the tree whose failure concerns one file. -/
def forOutput (directory : Path) (name : String) (change : Except FileError Tree) :
    Except Fault Tree :=
  change.mapError fun e => .output (directory / name).text e

/-- Writes the report of matches of a submission. -/
def writeMatches (t : Tree) (directory : Path) (regions : List Region) : Except Fault Tree :=
  forOutput directory matchesFile (t.write directory matchesFile (Region.report regions))

/-- Removes the report of matches of a submission, if there is one. -/
def removeMatches (t : Tree) (directory : Path) : Except Fault Tree :=
  match t.remove (directory / matchesFile) with
  | .error .notFound => .ok t
  | change => forOutput directory matchesFile change

/-- Writes the ranking of the peers of a submission. -/
def writePeerRanking (t : Tree) (directory : Path) (peers : List Standing) : Except Fault Tree :=
  forOutput directory peerRankingFile (t.write directory peerRankingFile (Report.peers peers))

/-- Writes the ranking of all students. -/
def writeOverallRanking (t : Tree) (directory : Path) (standings : List Standing) :
    Except Fault Tree :=
  forOutput directory overallRankingFile
    (t.write directory overallRankingFile (Report.overall standings))

/-- Writes the files of a submission.  When the first fails, the second is left alone. -/
def writeOutputs (t : Tree) (directory : Path) (regions : Option (List Region))
    (peers : List Standing) : Tree × Except Fault Unit :=
  let first := match regions with
    | some regions => writeMatches t directory regions
    | none => removeMatches t directory
  match first with
  | .error fault => (t, .error fault)
  | .ok t =>
    match writePeerRanking t directory peers with
    | .error fault => (t, .error fault)
    | .ok t => (t, .ok ())

/-! ## One submission -/

/-- What is left of a submission after it was compared. -/
structure Outcome where
  summary : Summary
  /-- Whether it has a suspicious position. -/
  hasMatches : Bool
  /-- Why its files could not be written. -/
  failure : Option Fault

/-- The regions that are reported of a ledger. -/
def Ledger.reported (l : Ledger) (s : Settings) : Option (List Region) :=
  if l.hasSuspicion then some (l.regions s.gradeable.hashSize s.engine.positionCap) else none

/-- The notices that come with the regions of a ledger. -/
def Ledger.reportNotices (l : Ledger) (s : Settings) : List Notice :=
  if l.hasSuspicion then l.fullGroups s.engine.positionCap else []

/-- Writes the files of a submission, which has a ledger. -/
def deliver (t : Tree) (source : Source) (ledger : Ledger) (regions : Option (List Region))
    (notices : List Notice) : Tree × Logged Outcome :=
  let (t, written) := writeOutputs t source.directory regions ledger.rankPeers
  match written with
  | .ok () => (t, ⟨notices, .ok ⟨ledger.summary, regions.isSome, none⟩⟩)
  | .error fault =>
    (t, ⟨notices ++ [.outputFailed source.student source.version fault],
      .ok ⟨ledger.summary, regions.isSome, some fault⟩⟩)

/-! ## Summing up -/

/-- What a run has done. -/
structure RunSummary where
  submissions : Nat
  /-- The number of submissions with a suspicious position. -/
  withMatches : Nat
  /-- The files that could not be written, in order. -/
  failures : List Fault
  overall : List Standing

/-- Whether every file was written. -/
def RunSummary.isSuccess (s : RunSummary) : Bool :=
  s.failures.isEmpty

/-- Sums up the outcomes of all submissions. -/
def RunSummary.ofOutcomes (outcomes : List Outcome) (overall : List Standing) : RunSummary where
  submissions := outcomes.length
  withMatches := outcomes.countP (·.hasMatches)
  failures := outcomes.filterMap (·.failure)
  overall := overall

/-- Writes the ranking of all students, the last file of a run. -/
def finish (t : Tree) (root : Path) (summary : RunSummary) : Tree × Logged RunSummary :=
  match writeOverallRanking t root summary.overall with
  | .ok t => (t, .done summary)
  | .error fault =>
    (t, ⟨[.rankingFailed fault], .ok { summary with failures := summary.failures ++ [fault] }⟩)

/-! ## Runs with any workings -/

/-- What a run computes from what it has read.  The results are in a monad; for the run itself it is
`Id`. -/
structure Workings (m : Type → Type) where
  /-- The ledger of a submission after comparing it. -/
  classify : Reference → Submission → m Ledger
  /-- The regions that are reported of a ledger, and the notices that come with them. -/
  report : Ledger → m (Option (List Region) × List Notice)
  /-- The ranking of all students. -/
  rank : List Summary → m (List Standing)

namespace Workings

variable {m : Type → Type} [Monad m] (w : Workings m)

/-- Compares the submission of a source and writes its files. -/
def process (r : Reference) (t : Tree) (source : Source) : m (Tree × Logged Outcome) :=
  match source.load t with
  | .error fault => pure (t, .fail fault)
  | .ok submission => do
    let ledger ← w.classify r submission
    let (regions, notices) ← w.report ledger
    pure (deliver t source ledger regions notices)

/-- Compares the submissions of a list of sources, one after another. -/
def processAll (r : Reference) (t : Tree) : List Source → m (Tree × List (Logged Outcome))
  | [] => pure (t, [])
  | source :: rest => do
    let (t, outcome) ← w.process r t source
    let (t, outcomes) ← processAll r t rest
    pure (t, outcome :: outcomes)

/-- Ends a run that has come to a tree, with the outcomes of its sources and what was logged. -/
def conclude (t : Tree) (root : Path) (notices : List Notice) (outcomes : List (Logged Outcome)) :
    m (Tree × Logged RunSummary) :=
  match (Logged.each id outcomes).result with
  | .error fault => pure (t, ⟨notices, .error fault⟩)
  | .ok outcomes => do
    let overall ← w.rank (outcomes.map (·.summary))
    let (t, summary) := finish t root (.ofOutcomes outcomes overall)
    pure (t, ⟨notices ++ summary.notices, summary.result⟩)

/-- Runs over the gradeable in a directory. -/
def run (t : Tree) (root : Path) (settings : Settings.Gradeable) : m (Tree × Logged RunSummary) :=
  let corpus := Corpus.load t root settings
  match corpus.result with
  | .error fault => pure (t, ⟨corpus.notices, .error fault⟩)
  | .ok { reference, sources } => do
    let (t, steps) ← w.processAll reference t sources
    w.conclude t root (corpus.notices ++ steps.flatMap (·.notices)) steps

end Workings

/-! ## The run -/

/-- What a run computes under given settings. -/
def Settings.workings (s : Settings) : Workings Id where
  classify r submission := classify r submission s.gradeable.hashSize
  report ledger := (ledger.reported s, ledger.reportNotices s)
  rank summaries := rankOverall summaries s.engine.weights

/-- Compares the submission of a source and writes its files. -/
def process (r : Reference) (s : Settings) (t : Tree) (source : Source) :
    Tree × Logged Outcome :=
  (s.workings.process r t source).run

/-- Compares the submissions of a list of sources, one after another. -/
def processAll (r : Reference) (s : Settings) (t : Tree) (sources : List Source) :
    Tree × List (Logged Outcome) :=
  (s.workings.processAll r t sources).run

/-- Ends a run that has come to a tree, with the outcomes of its sources and what was logged. -/
def conclude (t : Tree) (root : Path) (s : Settings) (notices : List Notice)
    (outcomes : List (Logged Outcome)) : Tree × Logged RunSummary :=
  (s.workings.conclude t root notices outcomes).run

/-- Runs over the gradeable in a directory. -/
def run (t : Tree) (root : Path) (s : Settings) : Tree × Logged RunSummary :=
  (s.workings.run t root s.gradeable).run

section Steps

variable {r : Reference} {s : Settings} {t : Tree} {root : Path} {source : Source}

theorem process_of_fault {fault : Fault} (h : source.load t = .error fault) :
    process r s t source = (t, .fail fault) := by
  unfold process Workings.process
  rw [h]
  rfl

theorem process_of_submission {submission : Submission} (h : source.load t = .ok submission) :
    process r s t source =
      (let ledger := classify r submission s.gradeable.hashSize
      deliver t source ledger (ledger.reported s) (ledger.reportNotices s)) := by
  unfold process Workings.process
  rw [h]
  rfl

theorem processAll_cons (rest : List Source) :
    processAll r s t (source :: rest) =
      (let first := process r s t source
      let others := processAll r s first.1 rest
      (others.1, first.2 :: others.2)) := by
  unfold processAll
  rw [Workings.processAll]
  simp only [Id.run_bind, Id.run_pure]
  rfl

theorem conclude_of_fault {outcomes : List (Logged Outcome)} {fault : Fault}
    (h : (Logged.each id outcomes).result = .error fault) (notices : List Notice) :
    conclude t root s notices outcomes = (t, ⟨notices, .error fault⟩) := by
  unfold conclude Workings.conclude
  rw [h]
  rfl

theorem conclude_of_outcomes {outcomes : List (Logged Outcome)} {results : List Outcome}
    (h : (Logged.each id outcomes).result = .ok results) (notices : List Notice) :
    conclude t root s notices outcomes =
      (let last := finish t root
        (.ofOutcomes results (rankOverall (results.map (·.summary)) s.engine.weights))
      (last.1, ⟨notices ++ last.2.notices, last.2.result⟩)) := by
  unfold conclude Workings.conclude
  rw [h]
  rfl

theorem run_of_fault {fault : Fault}
    (h : (Corpus.load t root s.gradeable).result = .error fault) :
    run t root s = (t, ⟨(Corpus.load t root s.gradeable).notices, .error fault⟩) := by
  unfold run Workings.run
  simp only [h]
  rfl

theorem run_of_corpus {corpus : Corpus}
    (h : (Corpus.load t root s.gradeable).result = .ok corpus) :
    run t root s =
      (let steps := processAll corpus.reference s t corpus.sources
      conclude steps.1 root s ((Corpus.load t root s.gradeable).notices ++
        steps.2.flatMap (·.notices)) steps.2) := by
  unfold run Workings.run
  simp only [h]
  rfl

end Steps
end Resemblance
