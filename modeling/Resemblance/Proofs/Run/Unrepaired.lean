import Resemblance.Proofs.Region.Capped
import Resemblance.Proofs.Settings.Load
import Resemblance.Run

/-!
# Settings are checked once

The functions of a run are on their guard against settings that were never checked.  A ledger takes
a width of zero for one, a window behind a hash size of zero is that of its position, and a cap of
zero is taken for one.  Only a score relies on its weights.

Settings that were loaded need no such repair.  To see that, the run is given other workings, which
repair nothing: all numbers are taken as they are, and where one could not be used, or weights do
not pass their check, the run breaks off with a `Breach`.  With settings that were loaded it never
does, and comes to the same as the run itself.

## What is here

* `Workings.ComesTo` — workings that come to plain results, and so run to plain results.
* `Unrepaired.ledger`, `Unrepaired.window`, `Unrepaired.fill`, `Unrepaired.build`,
  `Unrepaired.score` — the places where something is repaired or asked for, and one lemma for each
  that says when nothing has to be.
* `Unrepaired.workings` — the workings made of these, `Unrepaired.run` and `Unrepaired.run_eq`.
* `Settings.load_validates` — what is loaded, why nothing is, and that it needs no repair.
-/

set_option autoImplicit false
namespace Resemblance

/-- What a run cannot use when it repairs nothing. -/
inductive Breach where
  | hashSize
  | positionCap
  | weights
  deriving DecidableEq

/-! ## Workings that come to the same -/

namespace Workings

variable {m : Type → Type} [Monad m] {w : Workings m} {plain : Workings Id}

/-- Whether workings in some monad come to plain results. -/
structure ComesTo (w : Workings m) (plain : Workings Id) : Prop where
  classify : ∀ r submission, w.classify r submission = pure (plain.classify r submission).run
  report : ∀ ledger, w.report ledger = pure (plain.report ledger).run
  rank : ∀ summaries, w.rank summaries = pure (plain.rank summaries).run

namespace ComesTo

variable [LawfulMonad m] (h : w.ComesTo plain)

include h

theorem process_eq (r : Reference) (t : Tree) (source : Source) :
    w.process r t source = pure (plain.process r t source).run := by
  unfold process
  cases source.load t with
  | error fault => rfl
  | ok submission =>
    simp only [h.classify, h.report, pure_bind]
    rfl

theorem processAll_eq (r : Reference) (t : Tree) (sources : List Source) :
    w.processAll r t sources = pure (plain.processAll r t sources).run := by
  induction sources generalizing t with
  | nil => rfl
  | cons source sources ih =>
    simp only [processAll, h.process_eq, ih, pure_bind]
    rfl

theorem conclude_eq (t : Tree) (root : Path) (notices : List Notice)
    (outcomes : List (Logged Outcome)) :
    w.conclude t root notices outcomes = pure (plain.conclude t root notices outcomes).run := by
  unfold conclude
  cases (Logged.each id outcomes).result with
  | error fault => rfl
  | ok outcomes =>
    simp only [h.rank, pure_bind]
    rfl

/-- **Workings that come to plain results run to plain results.** -/
theorem run_eq (t : Tree) (root : Path) (settings : Settings.Gradeable) :
    w.run t root settings = pure (plain.run t root settings).run := by
  unfold run
  dsimp only
  cases (Corpus.load t root settings).result with
  | error fault => rfl
  | ok corpus =>
    simp only [h.processAll_eq, h.conclude_eq, pure_bind]
    rfl

end ComesTo
end Workings

namespace Unrepaired

/-! ## Ledgers -/

/-- A ledger without marks.  The width is taken as it is. -/
def ledger (s : Submission) (width : Nat) : Except Breach Ledger :=
  if h : 0 < width then
    .ok {
      submission := s
      width := width
      width_pos := h
      suspicious := ∅
      common := ∅
      provided := ∅
      tally := ∅ }
  else .error .hashSize

/-- The ledger of a submission after comparing it. -/
def classify (r : Reference) (s : Submission) (width : Nat) : Except Breach Ledger :=
  (ledger s width).map (·.recordAll (r.marks s))

theorem ledger_eq (s : Submission) {width : Nat} (h : 0 < width) :
    ledger s width = .ok (.ofSubmission s width) := by
  rw [ledger, dif_pos h, Ledger.ofSubmission, Except.ok.injEq, Ledger.mk.injEq]
  exact ⟨rfl, (Nat.max_eq_left h).symm, rfl, rfl, rfl, rfl⟩

theorem classify_eq (r : Reference) (s : Submission) {width : Nat} (h : 1 ≤ width) :
    classify r s width = .ok (Resemblance.classify r s width) := by
  rw [classify, ledger_eq s h]
  rfl

example (r : Reference) (s : Submission) : classify r s 0 = .error .hashSize := rfl

/-! ## Regions -/

/-- The window of tokens behind the fingerprint at a position.  Nothing is taken from zero. -/
def window (hashSize : Nat) (position : Position) : Except Breach Window :=
  match hashSize with
  | 0 => .error .hashSize
  | more + 1 => .ok ⟨position, position + UInt64.ofNat more⟩

theorem window_eq {hashSize : Nat} (h : 1 ≤ hashSize) (position : Position) :
    window hashSize position = .ok (.ofPosition hashSize position) := by
  obtain ⟨more, rfl⟩ := Nat.exists_eq_add_of_le' h
  rfl

/-- Goes on with an open group of locations, as `Group.fill` does.  The cap is taken as it is. -/
def fill (hashSize cap : Nat) (opened : Group) :
    List Location → Except Breach (List Group × List Peer)
  | [] => .ok ([opened], [])
  | x :: xs => do
    let window ← window hashSize x.position
    if opened.peer = x.peer ∧ opened.windows.length < cap then
      fill hashSize cap { opened with windows := opened.windows ++ [window] } xs
    else
      let rest ← fill hashSize cap ⟨x.peer, [window]⟩ xs
      .ok (opened :: rest.1, if opened.peer = x.peer then x.peer :: rest.2 else rest.2)

/-- The groups of locations in one pass, and the peers of the locations that found no room. -/
def fillAll (hashSize cap : Nat) : List Location → Except Breach (List Group × List Peer)
  | [] => .ok ([], [])
  | x :: xs => do
    let window ← window hashSize x.position
    fill hashSize cap ⟨x.peer, [window]⟩ xs

/-- The groups of a suspicious position, and the peers of the locations that found no room. -/
def fillAt (hashSize cap : Nat) (entry : Position × Hit) :
    Except Breach (Position × List Group × List Peer) :=
  (fillAll hashSize cap entry.2.locations.toList).map fun filled => (entry.1, filled)

/-- The regions of a ledger and the notices about full groups.  The cap is taken as it is. -/
def build (l : Ledger) (hashSize cap : Nat) : Except Breach (List Region × List Notice) := do
  if cap = 0 then .error .positionCap
  else
    let filled ← l.suspicious.toList.mapM (fillAt hashSize cap)
    let suspicious := filled.map fun entry => Region.single entry.1 (.matched entry.2.1)
    let common := l.common.toList.map (Region.single · .common)
    let provided := l.provided.toList.map (Region.single · .provided)
    let regions := (suspicious ++ common ++ provided).mergeSort fun a b => a.first ≤ b.first
    let notices := filled.flatMap fun entry =>
      entry.2.2.map (.groupFull l.submission.student l.submission.version entry.1 cap)
    .ok (Region.merge regions, notices)

section Regions

variable {hashSize cap : Nat}

theorem fill_eq (hsize : 1 ≤ hashSize) (hcap : 1 ≤ cap) (opened : Group) (ls : List Location) :
    fill hashSize cap opened ls = .ok (Group.fill hashSize cap opened ls) := by
  induction ls generalizing opened with
  | nil => rfl
  | cons x xs ih =>
    rw [fill, Group.fill, window_eq hsize, Nat.max_eq_left hcap]
    simp only [bind, Except.bind, ih]
    split
    · rfl
    · rfl

theorem fillAll_eq (hsize : 1 ≤ hashSize) (hcap : 1 ≤ cap) (ls : List Location) :
    fillAll hashSize cap ls = .ok (Group.fillAll hashSize cap ls) := by
  cases ls with
  | nil => rfl
  | cons x xs =>
    rw [fillAll, window_eq hsize]
    exact fill_eq hsize hcap _ xs

/-- Tasks that all succeed succeed together. -/
theorem mapM_eq_map {ε α β : Type} {task : α → Except ε β} {f : α → β}
    (h : ∀ a, task a = .ok (f a)) (as : List α) : as.mapM task = .ok (as.map f) := by
  rw [funext h]
  exact List.mapM_pure

theorem fillAt_eq (hsize : 1 ≤ hashSize) (hcap : 1 ≤ cap) (entry : Position × Hit) :
    fillAt hashSize cap entry = .ok (entry.1,
      Group.ofLocations hashSize cap entry.2.locations.toList,
      fullPeers cap (Location.byPeer entry.2.locations.toList)) := by
  rw [fillAt, fillAll_eq hsize hcap, Group.fillAll_eq]
  rfl

theorem build_eq (l : Ledger) (hsize : 1 ≤ hashSize) (hcap : 1 ≤ cap) :
    build l hashSize cap = .ok (l.regions hashSize cap, l.fullGroups cap) := by
  rw [build, if_neg (by omega)]
  simp only [mapM_eq_map (fillAt_eq hsize hcap), bind, Except.bind, List.map_map]
  rw [Except.ok.injEq, Prod.mk.injEq]
  refine ⟨?_, ?_⟩
  · rfl
  · have hnotice : ∀ p, l.fullNotice cap p =
        .groupFull l.submission.student l.submission.version p cap := by
      intro p
      funext peer
      rw [Ledger.fullNotice, Nat.max_eq_left hcap]
    rw [Ledger.fullGroups_eq, List.flatMap_map]
    simp only [hnotice]

end Regions

/-! ## Scores -/

/-- The score of a submission.  The weights have to pass their check. -/
def score (w : Weights) (percent : Double) (matched most : Nat) : Except Breach Double :=
  match w.check with
  | .ok () => .ok (Resemblance.score w percent matched most)
  | .error _ => .error .weights

/-- The standing of a version. -/
def standing (weights : Weights) (most : Nat) (s : Summary) : Except Breach Standing := do
  let score ← score weights s.percent s.matched most
  .ok {
    student := s.student
    version := s.version
    gradeable := none
    percent := s.percent
    score := some score }

/-- The ranking of all students. -/
def rankOverall (summaries : List Summary) (weights : Weights) : Except Breach (List Standing) := do
  let best := (bestVersions summaries).values
  let standings ← best.mapM (standing weights (mostMatched summaries))
  .ok (Standing.sort standings)

section Scores

variable {w : Weights}

theorem score_eq (h : w.check = .ok ()) (percent : Double) (matched most : Nat) :
    score w percent matched most = .ok (Resemblance.score w percent matched most) := by
  unfold score
  rw [h]

theorem standing_eq (h : w.check = .ok ()) (most : Nat) (s : Summary) :
    standing w most s = .ok (s.standing w most) := by
  rw [standing, score_eq h]
  rfl

theorem rankOverall_eq (h : w.check = .ok ()) (summaries : List Summary) :
    rankOverall summaries w = .ok (Resemblance.rankOverall summaries w) := by
  rw [rankOverall, mapM_eq_map (standing_eq h _)]
  rfl

end Scores

/-! ## The run -/

/-- The regions that are reported of a ledger, with the notices that come with them. -/
def reported (l : Ledger) (s : Settings) : Except Breach (Option (List Region) × List Notice) :=
  if l.hasSuspicion then
    (build l s.gradeable.hashSize s.engine.positionCap).map fun built => (some built.1, built.2)
  else .ok (none, [])

/-- What a run computes under given settings, without any repair. -/
def workings (s : Settings) : Workings (Except Breach) where
  classify r submission := classify r submission s.gradeable.hashSize
  report ledger := reported ledger s
  rank summaries := rankOverall summaries s.engine.weights

/-- Runs over the gradeable in a directory. -/
def run (t : Tree) (root : Path) (s : Settings) : Except Breach (Tree × Logged RunSummary) :=
  (workings s).run t root s.gradeable

section Run

variable {s : Settings}

theorem reported_eq (h : s.Usable) (l : Ledger) :
    reported l s = .ok (l.reported s, l.reportNotices s) := by
  rw [reported, Ledger.reported, Ledger.reportNotices, build_eq l h.hashSize h.positionCap]
  split
  · rfl
  · rfl

/-- Under usable settings, repairs make no difference to what a run computes. -/
theorem comesTo_workings (h : s.Usable) : (workings s).ComesTo s.workings where
  classify r submission := classify_eq r submission h.hashSize
  report := reported_eq h
  rank := rankOverall_eq h.weights

/-- **A run with usable settings repairs nothing.** -/
theorem run_eq (h : s.Usable) (t : Tree) (root : Path) :
    run t root s = .ok (Resemblance.run t root s) :=
  (comesTo_workings h).run_eq t root s.gradeable

end Run
end Unrepaired

/-! ## Settings that were loaded -/

namespace Settings

/-- **Settings are checked once and for all.**  They are loaded exactly if the file of the gradeable
and that of the engine say something that passes the check; otherwise the fault is one of the
settings, the first there is.  The settings of the engine come from the file that is named, which
has to be there, or else from the one in the directory if it is there, or else they have their
defaults.  With settings that were loaded, a run over any files repairs nothing and does not break
off. -/
theorem load_validates (t : Tree) (root : Path) (named : Option Path) :
    (∀ s, load t root named = .ok s ↔
      Says t (root / gradeableFile) Gradeable.ofJson? s.gradeable ∧
        EngineFrom t root named s.engine ∧ s.check = .ok ()) ∧
    (∀ fault, load t root named = .error fault ↔
      ∃ f, fault = .settings f ∧ LoadFault t root named f) ∧
    ∀ s, load t root named = .ok s → ∀ (u : Tree) (directory : Path),
      Unrepaired.run u directory s = .ok (run u directory s) := by
  refine ⟨fun s => load_eq_ok_iff, fun fault => load_eq_error_iff, fun s hload u directory => ?_⟩
  obtain ⟨-, -, hcheck⟩ := load_eq_ok_iff.1 hload
  exact Unrepaired.run_eq (check_eq_ok_iff.1 hcheck) u directory

end Settings

/-- A gradeable with settings, and a file with settings of the engine elsewhere. -/
def configuredFiles : Tree where
  start := []
  nodes := .ofList [
    (["g"], .directory),
    (["config.json", "g"],
      .file "\x7b\"semester\": \"s\", \"course\": \"c\", \"gradeable\": \"hw\"\x7d".toUTF8),
    (["engine.json"], .file "\x7b\"max_matching_positions\": 7\x7d".toUTF8)] compare

theorem load_validates_configured :
    ∃ s, Settings.load configuredFiles (.given "g") (some (.given "/engine.json")) = .ok s ∧
      s.check = .ok () ∧ s.engine.positionCap = 7 ∧
      Unrepaired.run configuredFiles (.given "g") s =
        .ok (run configuredFiles (.given "g") s) := by
  have hcap : (Settings.load configuredFiles (.given "g")
      (some (.given "/engine.json"))).toOption.map (·.engine.positionCap) = some 7 := by
    decide +kernel
  obtain ⟨s, hload, hseven⟩ := Option.map_eq_some_iff.1 hcap
  have hload := toOption_eq_some_iff.1 hload
  obtain ⟨hsettings, -, hrun⟩ :=
    Settings.load_validates configuredFiles (.given "g") (some (.given "/engine.json"))
  exact ⟨s, hload, ((hsettings s).1 hload).2.2, hseven, hrun s hload _ _⟩

end Resemblance
