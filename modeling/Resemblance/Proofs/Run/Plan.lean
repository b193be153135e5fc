import Resemblance.Proofs.Tree.Change
import Resemblance.Run

/-!
# Planning the files of a directory

The files that a run writes into a directory are written one after another, up to the first that
cannot be.  Which one that is depends on the directories of the tree alone.  So the changes of a
directory, and why they stop, can be planned before anything is written, and a plan does not depend
on what was written in other places meanwhile.

## What is here

* `IsOutput` — the places of output files.  None of them is the place of a fingerprint file.
* `Output`, `Tree.plan` — what files are to hold, and the changes that can be made.
* `Tree.firstFailure`, `Tree.failure_plan_eq` — the failure of the first file that may not be
  written is that of the plan, and `Tree.changes_plan_isPrefix` says which changes it makes.
* `writeOutputs_eq`, `writeOverallRanking_eq` — writing carries out the plan.
-/

set_option autoImplicit false
namespace Resemblance

/-! ## Output files -/

/-- The names of output files. -/
def outputNames : List String :=
  [matchesFile, peerRankingFile, overallRankingFile]

/-- The names of the files that are written for a submission, in order. -/
def submissionFiles : List String := [matchesFile, peerRankingFile]

/-- Whether a place is that of an output file. -/
def IsOutput (place : Place) : Prop :=
  ∃ name ∈ outputNames, ∃ directory, place = name :: directory

theorem not_isOutput_fingerprintFile (place : Place) : ¬IsOutput (fingerprintFile :: place) := by
  rintro ⟨name, hname, directory, heq⟩
  have hne : fingerprintFile ∉ outputNames := by decide
  rw [← (List.cons.inj heq).1] at hname
  exact hne hname

/-! ## Plans -/

/-- A file of a directory and what it is to hold.  Without a text it is to be removed. -/
structure Output where
  name : String
  text? : Option String

/-- The change that a file of the directory at a place needs. -/
def Output.changeAt (o : Output) (place : Place) : Change :=
  ⟨o.name :: place, o.text?⟩

/-- The changes of the files of a directory, and why they stop. -/
structure Plan where
  changes : List Change
  failure : Option Fault

/-- How the changes end. -/
def Plan.result (p : Plan) : Except Fault Unit :=
  match p.failure with
  | none => .ok ()
  | some fault => .error fault

/-- The plan that begins with a file at a path: its change and the later ones if it has a place, and
nothing otherwise. -/
def Plan.first (o : Output) (path : Path) (later : Plan) : Except FileError Place → Plan
  | .error e => ⟨[], some (.output path.text e)⟩
  | .ok place => ⟨⟨place, o.text?⟩ :: later.changes, later.failure⟩

namespace Tree

/-- The changes for the files of a directory, up to the first file that may not be changed. -/
def plan (t : Tree) (directory : Path) : List Output → Plan
  | [] => ⟨[], none⟩
  | o :: rest =>
    .first o (directory / o.name) (t.plan directory rest) (t.target directory o.name)

/-- Plans are the same where the files have the same places, if they may be changed. -/
theorem plan_congr {t u : Tree} {directory : Path} {outputs : List Output}
    (h : ∀ o ∈ outputs, u.target directory o.name = t.target directory o.name) :
    u.plan directory outputs = t.plan directory outputs := by
  induction outputs with
  | nil => rfl
  | cons o rest ih =>
    rw [plan, plan, h o List.mem_cons_self, ih fun o' ho' => h o' (List.mem_cons_of_mem o ho')]

/-! ## Why plans stop -/

/-- The failure of the first of some files in a directory that may not be written. -/
def firstFailure (t : Tree) (directory : Path) (names : List String) : Option Fault :=
  names.findSome? fun name =>
    match t.target directory name with
    | .ok _ => none
    | .error e => some (.output (directory / name).text e)

/-- A plan fails at the first file that may not be written. -/
theorem failure_plan_eq (t : Tree) (directory : Path) (outputs : List Output) :
    (t.plan directory outputs).failure = t.firstFailure directory (outputs.map Output.name) := by
  induction outputs with
  | nil => rfl
  | cons o rest ih =>
    rw [plan, List.map_cons, firstFailure, List.findSome?_cons]
    cases t.target directory o.name with
    | error e => rfl
    | ok q => exact ih

/-- A failure names a file that may not be written, and says why. -/
theorem exists_of_firstFailure {t : Tree} {directory : Path} {names : List String} {fault : Fault}
    (h : t.firstFailure directory names = some fault) :
    ∃ name ∈ names, ∃ e, t.target directory name = .error e ∧
      fault = .output (directory / name).text e := by
  obtain ⟨name, hname, hfault⟩ := List.exists_of_findSome?_eq_some h
  split at hfault
  · exact absurd hfault (by simp)
  · rename_i e htarget
    exact ⟨name, hname, e, htarget, (Option.some_inj.1 hfault).symm⟩

theorem firstFailure_eq_none_iff {t : Tree} {directory : Path} {names : List String} :
    t.firstFailure directory names = none ↔
      ∀ name ∈ names, ∃ q, t.target directory name = .ok q := by
  rw [firstFailure, List.findSome?_eq_none_iff]
  refine forall₂_congr fun name _ => ?_
  cases t.target directory name with
  | error e => simp
  | ok q => simp

/-- A plan fails at a file that may not be changed. -/
theorem exists_of_failure_plan {t : Tree} {directory : Path} {outputs : List Output} {fault : Fault}
    (h : (t.plan directory outputs).failure = some fault) :
    ∃ o ∈ outputs, ∃ e, t.target directory o.name = .error e ∧
      fault = .output (directory / o.name).text e := by
  rw [failure_plan_eq] at h
  obtain ⟨name, hname, e, htarget, hwhy⟩ := exists_of_firstFailure h
  obtain ⟨o, ho, rfl⟩ := List.mem_map.1 hname
  exact ⟨o, ho, e, htarget, hwhy⟩

/-- A plan does not fail when every file may be changed. -/
theorem failure_plan_eq_none_iff {t : Tree} {directory : Path} {outputs : List Output} :
    (t.plan directory outputs).failure = none ↔
      ∀ o ∈ outputs, ∃ q, t.target directory o.name = .ok q := by
  rw [failure_plan_eq, firstFailure_eq_none_iff, List.forall_mem_map]

/-! ## Plans for a directory -/

section Laws

variable {t : Tree} {directory : Path} {place : Place} (hd : t.LeadsTo directory place)

include hd

/-- A plan makes the first of the changes. -/
theorem changes_plan_isPrefix :
    ∀ outputs : List Output,
      (t.plan directory outputs).changes <+: outputs.map (Output.changeAt · place)
  | [] => List.prefix_refl _
  | o :: rest => by
    rw [plan]
    cases htarget : t.target directory o.name with
    | error e => exact List.nil_prefix
    | ok q =>
      obtain ⟨-, -, rfl⟩ := target_eq_ok hd htarget
      exact (List.prefix_cons_inj _).2 (changes_plan_isPrefix rest)

/-- A plan without failure makes all changes. -/
theorem changes_plan_eq :
    ∀ {outputs : List Output}, (t.plan directory outputs).failure = none →
      (t.plan directory outputs).changes = outputs.map (Output.changeAt · place)
  | [], _ => rfl
  | o :: rest, hnone => by
    rw [plan] at hnone ⊢
    cases htarget : t.target directory o.name with
    | error e =>
      rw [htarget] at hnone
      exact absurd hnone (by simp [Plan.first])
    | ok q =>
      rw [htarget] at hnone
      obtain ⟨-, -, rfl⟩ := target_eq_ok hd htarget
      show _ :: (t.plan directory rest).changes = _
      rw [changes_plan_eq hnone]
      rfl

/-- A plan changes no directory. -/
theorem isDirectoryAt_of_mem_plan :
    ∀ {outputs : List Output}, ∀ c ∈ (t.plan directory outputs).changes,
      t.isDirectoryAt c.place = false
  | [], c, hc => absurd hc List.not_mem_nil
  | o :: rest, c, hc => by
    rw [plan] at hc
    cases htarget : t.target directory o.name with
    | error e =>
      rw [htarget] at hc
      exact absurd hc List.not_mem_nil
    | ok q =>
      rw [htarget] at hc
      rcases List.mem_cons.1 hc with rfl | hc
      · obtain ⟨-, hfile, rfl⟩ := target_eq_ok hd htarget
        exact hfile
      · exact isDirectoryAt_of_mem_plan c hc

/-- A plan of output files changes nothing else. -/
theorem agreeOutside_plan {outputs : List Output}
    (hnames : ∀ o ∈ outputs, o.name ∈ outputNames) :
    AgreeOutside IsOutput t (t.changeAll (t.plan directory outputs).changes) := by
  refine (agreeOutside_changeAll (isDirectoryAt_of_mem_plan hd)).mono ?_
  rintro q ⟨c, hc, rfl⟩
  obtain ⟨o, ho, rfl⟩ := List.mem_map.1 ((changes_plan_isPrefix hd outputs).subset hc)
  exact ⟨o.name, hnames o ho, place, rfl⟩

/-- Plans depend on the directories alone. -/
theorem AgreeOutside.plan_eq {P : Place → Prop} {u : Tree} (h : AgreeOutside P t u)
    (outputs : List Output) : u.plan directory outputs = t.plan directory outputs :=
  plan_congr fun o _ => h.target_eq hd o.name

/-- So do failures. -/
theorem AgreeOutside.firstFailure_eq {P : Place → Prop} {u : Tree} (h : AgreeOutside P t u)
    (names : List String) : u.firstFailure directory names = t.firstFailure directory names := by
  simp only [firstFailure, h.target_eq hd]

end Laws

end Tree

/-! ## Carrying out a plan -/

/-- The output files of a submission. -/
def submissionOutputs (regions : Option (List Region)) (peers : List Standing) : List Output :=
  [⟨matchesFile, regions.map Region.report⟩, ⟨peerRankingFile, some (Report.peers peers)⟩]

/-- The output file of a whole run. -/
def runOutputs (standings : List Standing) : List Output :=
  [⟨overallRankingFile, some (Report.overall standings)⟩]

theorem name_mem_submissionOutputs (regions : Option (List Region)) (peers : List Standing) :
    ∀ o ∈ submissionOutputs regions peers, o.name ∈ outputNames := by
  simp [submissionOutputs, outputNames]

open Resemblance.Tree

section Write

variable {t : Tree} {directory : Path} {place : Place} (hd : t.LeadsTo directory place)

include hd

theorem removeMatches_eq : removeMatches t directory =
    forOutput directory matchesFile ((t.target directory matchesFile).map fun q =>
      t.change ⟨q, none⟩) := by
  rw [← removeIfThere_eq hd (by decide)]
  unfold removeMatches removeIfThere
  cases t.remove (directory / matchesFile) with
  | error e => cases e <;> rfl
  | ok u => rfl

/-- A change of the report of matches, and the ranking of peers after it. -/
theorem change_writePeerRanking_eq (text? : Option String) (peers : List Standing) :
    (match forOutput directory matchesFile
        ((t.target directory matchesFile).map fun q => t.change ⟨q, text?⟩) with
      | .error fault => (t, .error fault)
      | .ok t =>
        match writePeerRanking t directory peers with
        | .error fault => (t, .error fault)
        | .ok t => (t, .ok ())) =
      (let plan := t.plan directory
        [⟨matchesFile, text?⟩, ⟨peerRankingFile, some (Report.peers peers)⟩]
      (t.changeAll plan.changes, plan.result)) := by
  simp only [plan]
  cases hmatches : t.target directory matchesFile with
  | error e => rfl
  | ok q =>
    obtain ⟨-, hfile, rfl⟩ := target_eq_ok hd hmatches
    -- the second is looked up in the tree with the first change
    have hagree := agreeOutside_change (c := ⟨matchesFile :: place, text?⟩) hfile
    simp only [Except.map, forOutput, Except.mapError, writePeerRanking, write_eq,
      hagree.target_eq hd]
    cases t.target directory peerRankingFile with
    | error e => rfl
    | ok q' => rfl

/-- **Writing the files of a submission carries out their plan.** -/
theorem writeOutputs_eq (regions : Option (List Region)) (peers : List Standing) :
    writeOutputs t directory regions peers =
      (t.changeAll (t.plan directory (submissionOutputs regions peers)).changes,
        (t.plan directory (submissionOutputs regions peers)).result) := by
  refine Eq.trans ?_ (change_writePeerRanking_eq hd (regions.map Region.report) peers)
  unfold writeOutputs
  cases regions with
  | some regions =>
    dsimp only
    rw [writeMatches, write_eq]
    rfl
  | none =>
    dsimp only
    rw [removeMatches_eq hd]
    rfl

omit hd in
theorem writeOverallRanking_eq (root : Path) (standings : List Standing) :
    writeOverallRanking t root standings =
      (t.plan root (runOutputs standings)).result.map fun _ =>
        t.changeAll (t.plan root (runOutputs standings)).changes := by
  rw [writeOverallRanking, write_eq]
  simp only [runOutputs, plan]
  cases t.target root overallRankingFile with
  | error e => rfl
  | ok q => rfl

end Write
end Resemblance
