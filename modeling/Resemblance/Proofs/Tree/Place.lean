import Resemblance.Proofs.Tree.Change

/-!
# The place that a path names

There are no links in a tree, so where a path leads, if it leads anywhere, can be told from its
text.  What the tree decides is whether it leads there.  So two trees that start at the same place
can only differ in that, and they do not differ when they hold the same at the places the path goes
through.

## What is here

* `Tree.placeOf` — the place that a path names; `eq_placeOf` says that it leads nowhere else.
* `isDirectory_of_isDirectory_child`, `isDirectory_of_isFile_child` — what is there is in a
  directory.
* `Tree.SameAt` — two trees treat a path and its entries alike; `SameAt.child` goes one name
  further.
* `SameAt.isDirectory_eq`, `SameAt.isFile_eq`, `SameAt.readText_eq` — they read the same there.
-/

set_option autoImplicit false
namespace Resemblance

/-- Where a part of a path leads from a place. -/
def nextPlace (place : Place) (part : String) : Place :=
  if part = "" ∨ part = "." then place else if part = ".." then place.tail else part :: place

namespace Tree

/-- The place that a path names. -/
def placeOf (t : Tree) : Path → Place
  | .given text => (t.route text).2.foldl nextPlace (t.route text).1
  | .child directory name => name :: t.placeOf directory

@[simp] theorem placeOf_child (t : Tree) (directory : Path) (name : String) :
    t.placeOf (directory / name) = name :: t.placeOf directory :=
  rfl

theorem placeOf_empty (t : Tree) : t.placeOf (.given "") = t.start := by
  simp [placeOf, route, Path.parts, nextPlace]

/-- What a tree holds does not matter for the place. -/
theorem placeOf_eq {t u : Tree} (h : u.start = t.start) :
    ∀ path : Path, u.placeOf path = t.placeOf path
  | .given text => by
    have hroute : u.route text = t.route text := by
      rw [route, route, h]
    rw [placeOf, placeOf, hroute]
  | .child directory name => by
    rw [placeOf, placeOf, placeOf_eq h directory]

/-! ## Paths lead to their places -/

section Leads

variable {t : Tree}

theorem walk_eq_nextPlace {place q : Place} {part : String} (h : t.walk place part = .ok q) :
    q = nextPlace place part := by
  obtain ⟨-, hpart⟩ := walk_eq_ok_iff.1 h
  rw [nextPlace]
  rcases hpart with ⟨hstay, rfl⟩ | ⟨rfl, rfl⟩ | ⟨⟨hempty, hdot, hdots⟩, henter⟩
  · rw [if_pos hstay]
  · rfl
  · rw [if_neg (not_or.2 ⟨hempty, hdot⟩), if_neg hdots]
    exact (enter_eq_ok_iff.1 henter).2.2.2

theorem foldlM_walk_eq_foldl {parts : List String} {place q : Place}
    (h : parts.foldlM t.walk place = .ok q) : q = parts.foldl nextPlace place := by
  induction parts generalizing place with
  | nil => exact (Except.ok.inj h).symm
  | cons part parts ih =>
    rw [List.foldlM_cons, bind_eq_ok_iff] at h
    obtain ⟨next, hnext, hrest⟩ := h
    rw [List.foldl_cons, ← walk_eq_nextPlace hnext]
    exact ih hrest

/-- **A path leads to its place, or nowhere.** -/
theorem eq_placeOf : ∀ {path : Path} {q : Place}, t.follow path = .ok q → q = t.placeOf path
  | .given text, q, h => by
    rw [follow, resolve] at h
    split at h
    · exact absurd h (by simp)
    · exact foldlM_walk_eq_foldl h
  | .child directory name, q, h => by
    have hchild : t.follow (directory / name) = .ok q := h
    rw [follow_child, bind_eq_ok_iff] at hchild
    obtain ⟨outer, hbase, henter⟩ := hchild
    obtain ⟨-, -, -, rfl⟩ := enter_eq_ok_iff.1 henter
    rw [base] at hbase
    split at hbase
    · rename_i hempty
      rw [placeOf, hempty, placeOf_empty, ← Except.ok.inj hbase]
    · rw [placeOf, ← eq_placeOf hbase]

theorem base_eq_placeOf {path : Path} {q : Place} (h : t.base path = .ok q) :
    q = t.placeOf path := by
  rw [base] at h
  split at h
  · rename_i hempty
    rw [hempty, placeOf_empty, ← Except.ok.inj h]
  · exact eq_placeOf h

theorem child_ne_empty (directory : Path) (name : String) : directory / name ≠ .given "" :=
  fun heq => Path.noConfusion heq

theorem base_child (t : Tree) (directory : Path) (name : String) :
    t.base (directory / name) = t.follow (directory / name) :=
  if_neg (child_ne_empty directory name)

/-- A path of an entry that is there has its entries in a directory. -/
theorem exists_base_of_child {directory : Path} {name : String} {q : Place}
    (h : t.base (directory / name) = .ok q) :
    ∃ place, t.base directory = .ok place ∧ t.isDirectoryAt place = true := by
  rw [base_child, follow_child, bind_eq_ok_iff] at h
  obtain ⟨place, hbase, henter⟩ := h
  exact ⟨place, hbase, (enter_eq_ok_iff.1 henter).1⟩

theorem LeadsTo.eq_placeOf {path : Path} {q : Place} (h : t.LeadsTo path q) :
    q = t.placeOf path :=
  Tree.eq_placeOf h.1

/-! ## Directories on the way -/

theorem checkPath_eq_ok_iff {text : String} :
    checkPath text = .ok () ↔ '\x00' ∉ text.toList ∧ text.utf8ByteSize ≤ pathLimit := by
  unfold checkPath
  split
  · rename_i h
    simp only [List.contains_iff_mem] at h
    simp [h]
  · rename_i h
    rw [List.contains_iff_mem] at h
    split
    · rename_i hlong
      simp only [reduceCtorEq, false_iff, not_and]
      intro _
      omega
    · rename_i hshort
      simp only [h, not_false_eq_true, true_and, true_iff]
      omega

/-- The text of a path begins with that of the path before its last name. -/
theorem exists_text_child_eq (directory : Path) (name : String) :
    ∃ rest, (directory / name).text = directory.text ++ rest := by
  show ∃ rest, Path.join directory.text name = _
  rw [Path.join]
  split
  · rename_i h
    have hempty : directory.text = "" := by
      rw [← String.toList_eq_nil_iff]
      exact List.getLast?_eq_none_iff.1 h
    exact ⟨name, by rw [hempty, String.empty_append]⟩
  · exact ⟨name, rfl⟩
  · exact ⟨"/" ++ name, String.append_assoc⟩

theorem checkPath_of_child {directory : Path} {name : String}
    (h : checkPath (directory / name).text = .ok ()) : checkPath directory.text = .ok () := by
  obtain ⟨rest, hrest⟩ := exists_text_child_eq directory name
  rw [hrest, checkPath_eq_ok_iff, String.toList_append, String.utf8ByteSize_append] at h
  obtain ⟨hnul, hsize⟩ := h
  rw [checkPath_eq_ok_iff]
  refine ⟨fun hmem => hnul (List.mem_append_left _ hmem), ?_⟩
  omega

/-- What is in a path is in a directory, unless the path is empty. -/
theorem isDirectory_of_locate_child {directory : Path} (hne : directory ≠ .given "")
    {name : String} {q : Place} (h : t.locate (directory / name) = .ok q) :
    t.isDirectory directory = true := by
  obtain ⟨htext, place, hbase, hplace, -⟩ := locate_child_eq_ok_iff.1 h
  rw [base, if_neg hne] at hbase
  exact isDirectory_iff.2 ⟨place, locate_eq_ok_iff.2 ⟨checkPath_of_child htext, hbase⟩, hplace⟩

theorem isDirectory_of_isDirectory_child {directory : Path} (hne : directory ≠ .given "")
    {name : String} (h : t.isDirectory (directory / name) = true) :
    t.isDirectory directory = true := by
  obtain ⟨q, hq, -⟩ := isDirectory_iff.1 h
  exact isDirectory_of_locate_child hne hq

theorem isDirectory_of_isFile_child {directory : Path} (hne : directory ≠ .given "")
    {name : String} (h : t.isFile (directory / name) = true) : t.isDirectory directory = true := by
  obtain ⟨q, content, hq, -⟩ := isFile_iff.1 h
  exact isDirectory_of_locate_child hne hq

end Leads

/-! ## Paths in two trees -/

/-- Two trees look the entries of a path up in the same place, if at all, and hold the same
there. -/
structure SameAt (t u : Tree) (path : Path) : Prop where
  base : u.base path = t.base path
  node : u.node? (t.placeOf path) = t.node? (t.placeOf path)

namespace SameAt

variable {t u : Tree} {path : Path}

/-- A path with its entries in a directory in both. -/
theorem of_base {place place' : Place} (hstart : u.start = t.start)
    (ht : t.base path = .ok place ∧ t.isDirectoryAt place = true)
    (hu : u.base path = .ok place' ∧ u.isDirectoryAt place' = true) : SameAt t u path := by
  obtain ⟨hbase, hplace⟩ := ht
  obtain ⟨hbase', hplace'⟩ := hu
  have hsame : place' = place := by
    rw [base_eq_placeOf hbase, base_eq_placeOf hbase', placeOf_eq hstart]
  subst hsame
  refine ⟨hbase'.trans hbase.symm, ?_⟩
  rw [← base_eq_placeOf hbase, isDirectoryAt_iff.1 hplace, isDirectoryAt_iff.1 hplace']

/-- A path that leads to a directory in both. -/
theorem of_leadsTo {place place' : Place} (hstart : u.start = t.start)
    (ht : t.LeadsTo path place) (hu : u.LeadsTo path place') : SameAt t u path :=
  of_base hstart ⟨base_eq_ok ht.1, ht.2⟩ ⟨base_eq_ok hu.1, hu.2⟩

theorem follow_child_eq (h : SameAt t u path) {name : String}
    (hname : u.node? (name :: t.placeOf path) = t.node? (name :: t.placeOf path)) :
    u.follow (path / name) = t.follow (path / name) := by
  rw [follow_child, follow_child, h.base]
  cases hbase : t.base path with
  | error e => rfl
  | ok place =>
    obtain rfl := base_eq_placeOf hbase
    show u.enter _ name = t.enter _ name
    rw [enter, enter, isDirectoryAt, isDirectoryAt, h.node, hname]

/-- An entry of the path, if both hold the same there. -/
theorem child (h : SameAt t u path) {name : String}
    (hname : u.node? (name :: t.placeOf path) = t.node? (name :: t.placeOf path)) :
    SameAt t u (path / name) := by
  refine ⟨?_, hname⟩
  rw [base_child, base_child, h.follow_child_eq hname]

theorem follow_eq (h : SameAt t u path) : u.follow path = t.follow path := by
  by_cases hempty : path = .given ""
  · rw [hempty]
    rfl
  · have hbase := h.base
    rwa [Tree.base, Tree.base, if_neg hempty, if_neg hempty] at hbase

theorem locate_eq (h : SameAt t u path) : u.locate path = t.locate path := by
  rw [locate, locate, h.follow_eq]

/-! ## Reading -/

theorem at?_eq (h : SameAt t u path) : u.at? path = t.at? path := by
  rw [Tree.at?, Tree.at?, h.locate_eq]
  cases hlocate : t.locate path with
  | error e => rfl
  | ok place =>
    obtain rfl := Tree.eq_placeOf (locate_eq_ok_iff.1 hlocate).2
    exact h.node

theorem isDirectory_eq (h : SameAt t u path) : u.isDirectory path = t.isDirectory path := by
  rw [isDirectory, isDirectory, h.at?_eq]

theorem isFile_eq (h : SameAt t u path) : u.isFile path = t.isFile path := by
  rw [isFile, isFile, h.at?_eq]

theorem readText_eq (h : SameAt t u path) : u.readText path = t.readText path := by
  rw [readText, readText, h.locate_eq]
  cases hlocate : t.locate path with
  | error e => rfl
  | ok place =>
    obtain rfl := Tree.eq_placeOf (locate_eq_ok_iff.1 hlocate).2
    simp only [bind, Except.bind, h.node]

end SameAt
end Tree
end Resemblance
