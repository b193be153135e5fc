import Mathlib.Data.List.Basic
import Resemblance.Proofs.Attempt
import Resemblance.Tree

/-!
# Trees that agree

A run changes files while it goes on, and what it reads must not depend on that.  Two trees *agree
outside* some places when they have the same directories and the same files elsewhere.  A path is
followed through directories only, so it leads to the same place in both of them, and what is read
there is the same unless the place is among the exceptions.

## What is here

* `Tree.base` — the place in which the entries of a path are looked up; `follow_child` and
  `locateDirectory_eq` say so.
* `Tree.AgreeOutside` — the relation, an equivalence for fixed exceptions.
* `isDirectory_eq`, `isFile_eq`, `readText_eq` — reading in trees that agree.
* `mem_directories_iff`, `pairwise_directories` — what a listing shows, and in which order; so it is
  the same where the same directories are found (`directories_congr`).
-/

set_option autoImplicit false
namespace Resemblance
namespace Tree

open Std

/-! ## Where the entries of a path are looked up -/

/-- The place in which the entries of a path are looked up.  The empty path stands for the start. -/
def base (t : Tree) (directory : Path) : Except FileError Place :=
  if directory = .given "" then .ok t.start else t.follow directory

theorem follow_child (t : Tree) (directory : Path) (name : String) :
    t.follow (directory / name) = (do t.enter (← t.base directory) name) := by
  show t.follow (.child directory name) = _
  cases directory with
  | child directory' name' =>
    rw [follow, base, if_neg (by simp)]
    simp
  | given text =>
    by_cases h : text = ""
    · rw [h, follow, base, if_pos rfl]
      rfl
    · have hne : Path.given text ≠ .given "" := fun h' => h (Path.given.inj h')
      rw [follow, base, if_neg hne]
      exact hne

theorem locateDirectory_eq (t : Tree) (directory : Path) (name : String) :
    t.locateDirectory directory name = (do
      checkPath (directory / name).text
      let place ← t.base directory
      if t.isDirectoryAt place then .ok place else .error .notDirectory) := by
  unfold locateDirectory base
  split
  · rfl
  · rename_i h
    rw [if_neg h]

/-- The base of a path that leads to a directory is that directory. -/
theorem base_eq_ok {t : Tree} {directory : Path} {place : Place}
    (h : t.follow directory = .ok place) : t.base directory = .ok place := by
  have hne : directory ≠ .given "" := by
    rintro rfl
    -- the empty text leads nowhere
    exact absurd h (by simp [follow, resolve])
  rw [base, if_neg hne]
  exact h

theorem enter_eq_ok_iff {t : Tree} {place q : Place} {name : String} :
    t.enter place name = .ok q ↔
      t.isDirectoryAt place = true ∧ name.utf8ByteSize ≤ nameLimit ∧
        (t.node? (name :: place)).isSome = true ∧ q = name :: place := by
  rw [enter]
  split
  · rename_i h
    simp only [reduceCtorEq, false_iff, not_and]
    intro hd
    simp [hd] at h
  · rename_i h
    have hd : t.isDirectoryAt place = true := by simpa using h
    split
    · rename_i hlong
      simp only [reduceCtorEq, false_iff, not_and]
      intro _ hshort
      exact absurd hlong (Nat.not_lt.2 hshort)
    · rename_i hshort
      split
      · rename_i hsome
        simp only [hd, Nat.not_lt.1 hshort, hsome, true_and, Except.ok.injEq]
        exact eq_comm
      · rename_i hnone
        simp [hnone]

theorem walk_eq_ok_iff {t : Tree} {place q : Place} {part : String} :
    t.walk place part = .ok q ↔
      t.isDirectoryAt place = true ∧ ((part = "" ∨ part = ".") ∧ q = place ∨
        part = ".." ∧ q = place.tail ∨
          (part ≠ "" ∧ part ≠ "." ∧ part ≠ "..") ∧ t.enter place part = .ok q) := by
  unfold walk
  cases h : t.isDirectoryAt place with
  | false => simp
  | true =>
    rw [if_pos rfl]
    split
    · simp [eq_comm (a := q)]
    · simp [eq_comm (a := q)]
    · simp [eq_comm (a := q)]
    · rename_i h₁ h₂ h₃
      have hname : part ≠ "" ∧ part ≠ "." ∧ part ≠ ".." := ⟨h₁, h₂, h₃⟩
      simp [hname]

theorem locate_eq_ok_iff {t : Tree} {path : Path} {place : Place} :
    t.locate path = .ok place ↔ checkPath path.text = .ok () ∧ t.follow path = .ok place := by
  rw [locate, bind_eq_ok_iff]
  exact ⟨fun ⟨(), htext, hfollow⟩ => ⟨htext, hfollow⟩, fun h => ⟨(), h⟩⟩

theorem isDirectoryAt_iff {t : Tree} {place : Place} :
    t.isDirectoryAt place = true ↔ t.node? place = some .directory := by
  rw [isDirectoryAt]
  split
  · rename_i h
    simp [h]
  · rename_i h
    simp only [Bool.false_eq_true, false_iff]
    exact h

theorem isDirectory_iff {t : Tree} {path : Path} :
    t.isDirectory path = true ↔
      ∃ place, t.locate path = .ok place ∧ t.isDirectoryAt place = true := by
  rw [isDirectory, at?]
  cases h : t.locate path with
  | error e => simp
  | ok place =>
    simp only [Except.ok.injEq, exists_eq_left', isDirectoryAt]

theorem isFile_iff {t : Tree} {path : Path} :
    t.isFile path = true ↔
      ∃ place content, t.locate path = .ok place ∧ t.node? place = some (.file content) := by
  rw [isFile, at?]
  cases h : t.locate path with
  | error e => simp
  | ok place =>
    simp only [Except.ok.injEq, exists_and_left, exists_eq_left']
    cases t.node? place with
    | none => simp
    | some node => cases node <;> simp

/-- An entry of a path that leads somewhere. -/
theorem locate_child_eq_ok_iff {t : Tree} {directory : Path} {name : String} {q : Place} :
    t.locate (directory / name) = .ok q ↔
      checkPath (directory / name).text = .ok () ∧ ∃ place, t.base directory = .ok place ∧
        t.isDirectoryAt place = true ∧ name.utf8ByteSize ≤ nameLimit ∧
          (t.node? (name :: place)).isSome = true ∧ q = name :: place := by
  rw [locate_eq_ok_iff, follow_child, bind_eq_ok_iff]
  simp only [enter_eq_ok_iff]

/-! ## Agreement -/

/-- Two trees agree outside some places: they have the same directories, and everything at other
places is the same. -/
structure AgreeOutside (P : Place → Prop) (t u : Tree) : Prop where
  start : u.start = t.start
  directory : ∀ place, u.isDirectoryAt place = t.isDirectoryAt place
  node : ∀ place, ¬P place → u.node? place = t.node? place

namespace AgreeOutside

variable {P : Place → Prop} {t u v : Tree}

theorem refl (P : Place → Prop) (t : Tree) : AgreeOutside P t t :=
  ⟨rfl, fun _ => rfl, fun _ _ => rfl⟩

theorem symm (h : AgreeOutside P t u) : AgreeOutside P u t :=
  ⟨h.start.symm, fun place => (h.directory place).symm, fun place hp => (h.node place hp).symm⟩

theorem trans (h : AgreeOutside P t u) (h' : AgreeOutside P u v) : AgreeOutside P t v :=
  ⟨h'.start.trans h.start, fun place => (h'.directory place).trans (h.directory place),
    fun place hp => (h'.node place hp).trans (h.node place hp)⟩

theorem mono {Q : Place → Prop} (h : AgreeOutside P t u) (hPQ : ∀ place, P place → Q place) :
    AgreeOutside Q t u :=
  ⟨h.start, h.directory, fun place hq => h.node place fun hp => hq (hPQ place hp)⟩

/-! ## Following paths -/

theorem enter (h : AgreeOutside P t u) {place q : Place} {name : String}
    (henter : t.enter place name = .ok q) (hq : t.isDirectoryAt q = true) :
    u.enter place name = .ok q := by
  obtain ⟨hplace, hname, -, rfl⟩ := enter_eq_ok_iff.1 henter
  -- a directory of one tree is a directory of the other one
  rw [← h.directory, isDirectoryAt_iff] at hq
  exact enter_eq_ok_iff.2 ⟨(h.directory place).trans hplace, hname, by rw [hq]; rfl, rfl⟩

theorem walk (h : AgreeOutside P t u) {place q : Place} {part : String}
    (hwalk : t.walk place part = .ok q) (hq : t.isDirectoryAt q = true) :
    u.walk place part = .ok q := by
  rw [walk_eq_ok_iff] at hwalk ⊢
  obtain ⟨hplace, hpart⟩ := hwalk
  refine ⟨(h.directory place).trans hplace, hpart.imp_right (Or.imp_right fun hname => ?_)⟩
  exact ⟨hname.1, h.enter hname.2 hq⟩

theorem foldlM_walk (h : AgreeOutside P t u) :
    ∀ {parts : List String} {place q : Place}, parts.foldlM t.walk place = .ok q →
      t.isDirectoryAt q = true → parts.foldlM u.walk place = .ok q
  | [], _, _, hwalk, _ => hwalk
  | part :: parts, place, q, hwalk, hq => by
    rw [List.foldlM_cons, bind_eq_ok_iff] at hwalk ⊢
    obtain ⟨next, hnext, hrest⟩ := hwalk
    have hdirectory : t.isDirectoryAt next = true := by
      cases parts with
      | nil =>
        obtain rfl : next = q := Except.ok.inj hrest
        exact hq
      | cons part' parts =>
        rw [List.foldlM_cons, bind_eq_ok_iff] at hrest
        obtain ⟨_, hfirst, -⟩ := hrest
        exact (walk_eq_ok_iff.1 hfirst).1
    exact ⟨next, h.walk hnext hdirectory, h.foldlM_walk hrest hq⟩

/-- A path that leads to a directory leads to it in both trees. -/
theorem follow (h : AgreeOutside P t u) :
    ∀ {path : Path} {place : Place}, t.follow path = .ok place →
      t.isDirectoryAt place = true → u.follow path = .ok place
  | .given text, place, hfollow, hplace => by
    rw [Tree.follow, resolve] at hfollow ⊢
    split at hfollow
    · exact absurd hfollow (by simp)
    · rename_i htext
      have hroute : u.route text = t.route text := by
        rw [route, route, h.start]
      rw [if_neg htext, hroute]
      exact h.foldlM_walk hfollow hplace
  | .child directory name, place, hfollow, hplace => by
    have hfollow' : t.follow (directory / name) = .ok place := hfollow
    rw [follow_child, bind_eq_ok_iff] at hfollow'
    obtain ⟨outer, hbase, henter⟩ := hfollow'
    obtain ⟨houter, hname, -, rfl⟩ := enter_eq_ok_iff.1 henter
    show u.follow (directory / name) = _
    rw [follow_child, bind_eq_ok_iff]
    refine ⟨outer, ?_, enter_eq_ok_iff.2 ⟨(h.directory outer).trans houter, hname, ?_, rfl⟩⟩
    · rw [base] at hbase ⊢
      split
      · rename_i hempty
        rw [if_pos hempty] at hbase
        rw [h.start]
        exact hbase
      · rename_i hne
        rw [if_neg hne] at hbase
        exact h.follow hbase houter
    · rw [← h.directory, isDirectoryAt_iff] at hplace
      rw [hplace]
      rfl

theorem base (h : AgreeOutside P t u) {directory : Path} {place : Place}
    (hbase : t.base directory = .ok place) (hplace : t.isDirectoryAt place = true) :
    u.base directory = .ok place := by
  rw [Tree.base] at hbase ⊢
  split
  · rename_i hempty
    rw [if_pos hempty] at hbase
    rw [h.start]
    exact hbase
  · rename_i hne
    rw [if_neg hne] at hbase
    exact h.follow hbase hplace

theorem locate (h : AgreeOutside P t u) {path : Path} {place : Place}
    (hlocate : t.locate path = .ok place) (hplace : t.isDirectoryAt place = true) :
    u.locate path = .ok place := by
  rw [locate_eq_ok_iff] at hlocate ⊢
  exact ⟨hlocate.1, h.follow hlocate.2 hplace⟩

/-- An entry that is no exception is found in both trees. -/
theorem locate_child (h : AgreeOutside P t u) {name : String} (hP : ∀ place, ¬P (name :: place))
    {directory : Path} {q : Place} (hlocate : t.locate (directory / name) = .ok q) :
    u.locate (directory / name) = .ok q ∧ u.node? q = t.node? q := by
  obtain ⟨htext, place, hbase, hplace, hname, hsome, rfl⟩ := locate_child_eq_ok_iff.1 hlocate
  have hnode := h.node (name :: place) (hP place)
  refine ⟨locate_child_eq_ok_iff.2 ⟨htext, place, h.base hbase hplace, ?_, hname, ?_, rfl⟩, hnode⟩
  · exact (h.directory place).trans hplace
  · rw [hnode]
    exact hsome

/-! ## Reading -/

theorem isDirectory_of_isDirectory (h : AgreeOutside P t u) {path : Path}
    (hpath : t.isDirectory path = true) : u.isDirectory path = true := by
  obtain ⟨place, hlocate, hplace⟩ := isDirectory_iff.1 hpath
  exact isDirectory_iff.2 ⟨place, h.locate hlocate hplace, (h.directory place).trans hplace⟩

theorem isDirectory_eq (h : AgreeOutside P t u) (path : Path) :
    u.isDirectory path = t.isDirectory path :=
  Bool.eq_iff_iff.2 ⟨h.symm.isDirectory_of_isDirectory, h.isDirectory_of_isDirectory⟩

theorem isFile_of_isFile (h : AgreeOutside P t u) {name : String} (hP : ∀ place, ¬P (name :: place))
    {directory : Path} (hfile : t.isFile (directory / name) = true) :
    u.isFile (directory / name) = true := by
  obtain ⟨place, content, hlocate, hnode⟩ := isFile_iff.1 hfile
  obtain ⟨hlocate', hnode'⟩ := h.locate_child hP hlocate
  exact isFile_iff.2 ⟨place, content, hlocate', hnode'.trans hnode⟩

theorem isFile_eq (h : AgreeOutside P t u) {name : String} (hP : ∀ place, ¬P (name :: place))
    (directory : Path) : u.isFile (directory / name) = t.isFile (directory / name) :=
  Bool.eq_iff_iff.2 ⟨h.symm.isFile_of_isFile hP, h.isFile_of_isFile hP⟩

theorem readText_eq (h : AgreeOutside P t u) {name : String} (hP : ∀ place, ¬P (name :: place))
    {directory : Path} (hfile : t.isFile (directory / name) = true) :
    u.readText (directory / name) = t.readText (directory / name) := by
  obtain ⟨place, content, hlocate, hnode⟩ := isFile_iff.1 hfile
  obtain ⟨hlocate', hnode'⟩ := h.locate_child hP hlocate
  rw [readText, readText, hlocate, hlocate']
  simp only [bind, Except.bind, hnode']

end AgreeOutside

/-! ## Listings -/

theorem mem_entriesAt_iff (t : Tree) (place : Place) (name : String) :
    name ∈ t.entriesAt place ↔ (t.node? (name :: place)).isSome = true := by
  rw [entriesAt, List.mem_filterMap, node?]
  · rw [← ExtTreeMap.mem_iff_isSome_getElem?, ← ExtTreeMap.mem_keys]
    constructor
    · rintro ⟨key, hkey, h⟩
      cases key with
      | nil => exact absurd h (by simp)
      | cons name' outer =>
        simp only [Option.ite_none_right_eq_some, Option.some_inj] at h
        obtain ⟨rfl, rfl⟩ := h
        exact hkey
    · intro hkey
      exact ⟨name :: place, hkey, by simp⟩
  · simp

/-- The entries of a directory ascend. -/
theorem pairwise_entriesAt (t : Tree) (place : Place) :
    (t.entriesAt place).Pairwise fun a b => compare a b = .lt := by
  rw [entriesAt, List.pairwise_filterMap]
  refine ExtTreeMap.ordered_keys.imp fun {k l} hkl a ha b hb => ?_
  cases k with
  | nil => exact absurd ha (by simp)
  | cons name outer =>
    cases l with
    | nil => exact absurd hb (by simp)
    | cons name' outer' =>
      simp only [Option.ite_none_right_eq_some, Option.some_inj] at ha hb
      obtain ⟨rfl, rfl⟩ := ha
      obtain ⟨rfl, rfl⟩ := hb
      rw [List.compare_cons_cons, compare_self, Ordering.then_eq] at hkl
      exact hkl

theorem directories_eq_ok_iff {t : Tree} {path : Path} {names : List String} :
    t.directories path = .ok names ↔
      ∃ place, t.locate path = .ok place ∧ t.isDirectoryAt place = true ∧
        names = (t.entriesAt place).filter fun name => t.isDirectory (path / name) := by
  rw [directories, bind_eq_ok_iff]
  refine exists_congr fun place => and_congr_right fun _ => ?_
  split
  · rename_i h
    simp only [h, true_and, Except.ok.injEq]
    exact eq_comm
  · rename_i h
    simp [h]

/-- A directory can be listed. -/
theorem exists_directories {t : Tree} {path : Path} (h : t.isDirectory path = true) :
    ∃ names, t.directories path = .ok names := by
  obtain ⟨place, hlocate, hplace⟩ := isDirectory_iff.1 h
  exact ⟨_, directories_eq_ok_iff.2 ⟨place, hlocate, hplace, rfl⟩⟩

/-- A listing shows exactly the directories. -/
theorem mem_directories_iff {t : Tree} {path : Path} {names : List String}
    (h : t.directories path = .ok names) (name : String) :
    name ∈ names ↔ t.isDirectory (path / name) = true := by
  obtain ⟨place, hlocate, hplace, rfl⟩ := directories_eq_ok_iff.1 h
  rw [List.mem_filter, mem_entriesAt_iff]
  refine and_iff_right_of_imp fun hdirectory => ?_
  obtain ⟨q, hq, -⟩ := isDirectory_iff.1 hdirectory
  obtain ⟨-, outer, houter, -, -, hsome, -⟩ := locate_child_eq_ok_iff.1 hq
  have hbase := base_eq_ok (locate_eq_ok_iff.1 hlocate).2
  obtain rfl : place = outer := Except.ok.inj (hbase.symm.trans houter)
  exact hsome

theorem pairwise_directories {t : Tree} {path : Path} {names : List String}
    (h : t.directories path = .ok names) : names.Pairwise fun a b => compare a b = .lt := by
  obtain ⟨place, -, -, rfl⟩ := directories_eq_ok_iff.1 h
  exact (t.pairwise_entriesAt place).filter _

/-- Strictly ascending lists with the same members are the same. -/
theorem eq_of_ascending {names names' : List String}
    (h : names.Pairwise fun a b => compare a b = .lt)
    (h' : names'.Pairwise fun a b => compare a b = .lt)
    (hmem : ∀ name, name ∈ names ↔ name ∈ names') : names = names' := by
  have hne : ∀ a b : String, compare a b = .lt → a ≠ b := fun a b hlt heq => by
    rw [heq, compare_self] at hlt
    exact absurd hlt (by simp)
  have hperm : names.Perm names' := (List.perm_ext_iff_of_nodup (h.imp fun {a b} => hne a b)
    (h'.imp fun {a b} => hne a b)).2 hmem
  refine hperm.eq_of_pairwise (fun a b _ _ hab hba => ?_) h h'
  exact absurd hba (by rw [OrientedCmp.gt_of_lt hab]; simp)

/-- Directories with the same directories in them have the same listing. -/
theorem directories_congr {t u : Tree} {path : Path} (ht : t.isDirectory path = true)
    (hu : u.isDirectory path = true)
    (h : ∀ name : String, u.isDirectory (path / name) = t.isDirectory (path / name)) :
    u.directories path = t.directories path := by
  obtain ⟨names, hnames⟩ := exists_directories ht
  obtain ⟨names', hnames'⟩ := exists_directories hu
  rw [hnames, hnames', Except.ok.injEq]
  refine eq_of_ascending (pairwise_directories hnames') (pairwise_directories hnames) ?_
  intro name
  rw [mem_directories_iff hnames', mem_directories_iff hnames, h]

end Tree
end Resemblance
