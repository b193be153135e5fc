import Resemblance.Proofs.Corpus.Stable
import Resemblance.Proofs.Run.Plan

/-!
# Obstructed sources

A directory that stands where a file of a submission should be written obstructs it.  Such
directories are deeper than anything that is loaded, but for the fingerprint files, and these have
another name.  So two trees that differ in obstructions alone have the same corpus.

## What is here

* `Tree.IsObstructed`, `InObstruction` — obstructions, and the places in them.
* `DifferInObstructions` — what two trees may differ in; a symmetric relation.
* `DifferInObstructions.load_eq` — the corpus is the same.
-/

set_option autoImplicit false
namespace Resemblance

open Resemblance.Tree

/-! ## Obstructions -/

/-- Whether a directory stands where a file of the submission in a directory should be. -/
def Tree.IsObstructed (t : Tree) (directory : Path) : Prop :=
  ∃ place, t.LeadsTo directory place ∧
    ∃ name ∈ submissionFiles, t.isDirectoryAt (name :: place) = true

/-- A source of two gradeables that is obstructed in one of them. -/
structure ObstructedIn (t u : Tree) (root : Path) (source : Source) : Prop where
  isBelow : source.IsBelow t (root / usersDirectory)
  isBelow' : source.IsBelow u (root / usersDirectory)
  obstructed : t.IsObstructed source.directory ∨ u.IsObstructed source.directory

/-- Whether a place is that of a file of an obstructed source, or lies in a directory that stands
there. -/
def InObstruction (t u : Tree) (root : Path) (q : Place) : Prop :=
  ∃ source, ObstructedIn t u root source ∧ ∃ place, t.LeadsTo source.directory place ∧
    ∃ name ∈ submissionFiles, (name :: place) <:+ q

/-- Two trees differ in nothing but obstructions of sources. -/
structure DifferInObstructions (t u : Tree) (root : Path) : Prop where
  start : u.start = t.start
  node : ∀ q, ¬InObstruction t u root q → u.node? q = t.node? q

/-! ## Where obstructions are -/

section Where

variable {t u : Tree} {root : Path}

theorem InObstruction.exists_suffix {q : Place} (h : InObstruction t u root q) :
    ∃ name ∈ submissionFiles, ∃ version student : String,
      (name :: version :: student :: usersDirectory :: t.placeOf root) <:+ q := by
  obtain ⟨source, hsource, place, hd, name, hname, hq⟩ := h
  obtain ⟨version, -, hplace⟩ := hsource.isBelow.exists_placeOf
  rw [hd.eq_placeOf, hplace] at hq
  exact ⟨name, hname, version, source.student, hq⟩

/-- Nothing at or above a version directory is in an obstruction. -/
theorem not_inObstruction_of_length_le {q : Place}
    (h : q.length ≤ (t.placeOf root).length + 3) : ¬InObstruction t u root q := by
  intro hq
  obtain ⟨name, _, version, student, hsuffix⟩ := hq.exists_suffix
  have hlength := hsuffix.length_le
  simp only [List.length_cons] at hlength
  omega

/-- No fingerprint file of a submission is. -/
theorem not_inObstruction_fingerprintFile (version student : String) :
    ¬InObstruction t u root
      (fingerprintFile :: version :: student :: usersDirectory :: t.placeOf root) := by
  intro hq
  obtain ⟨name, hname, version', student', hsuffix⟩ := hq.exists_suffix
  have hne : fingerprintFile ∉ submissionFiles := by decide
  have heq := hsuffix.eq_of_length (by simp only [List.length_cons])
  rw [(List.cons.inj heq).1] at hname
  exact hne hname

/-- Nothing in another directory than that of all users is. -/
theorem not_inObstruction_of_ne {name : String} (hname : name ≠ usersDirectory)
    (inner : List String) : ¬InObstruction t u root (inner ++ name :: t.placeOf root) := by
  intro hq
  obtain ⟨file, _, version, student, hsuffix⟩ := hq.exists_suffix
  have husers : (usersDirectory :: t.placeOf root) <:+ inner ++ name :: t.placeOf root :=
    List.IsSuffix.trans ⟨[file, version, student], rfl⟩ hsuffix
  have hother : (name :: t.placeOf root) <:+ inner ++ name :: t.placeOf root :=
    List.suffix_append inner _
  -- both are the end of the same length
  have hsame := (List.suffix_of_suffix_length_le hother husers (by simp)).eq_of_length (by simp)
  exact hname (List.cons.inj hsame).1

/-- No file of a source that is not obstructed is in the obstruction of another one. -/
theorem not_inObstruction_of_free {source : Source}
    (hsource : source.IsBelow t (root / usersDirectory)) (hfree : ¬t.IsObstructed source.directory)
    (hfree' : ¬u.IsObstructed source.directory) {place : Place}
    (hd : t.LeadsTo source.directory place) (name : String) :
    ¬InObstruction t u root (name :: place) := by
  rintro ⟨source', hsource', place', hd', file, hfile, hsuffix⟩
  obtain ⟨_, -, hplace⟩ := hsource.exists_placeOf
  obtain ⟨_, -, hplace'⟩ := hsource'.isBelow.exists_placeOf
  have hlength : (file :: place').length = (name :: place).length := by
    rw [hd.eq_placeOf, hd'.eq_placeOf, hplace, hplace']
    rfl
  obtain ⟨-, rfl⟩ := List.cons.inj (hsuffix.eq_of_length hlength)
  -- so both sources stand in the same directory
  have hsame := hsource.directory_eq hsource'.isBelow (hd.eq_placeOf.symm.trans hd'.eq_placeOf)
  rcases hsource'.obstructed with hobstructed | hobstructed
  · exact hfree (hsame ▸ hobstructed)
  · exact hfree' (hsame ▸ hobstructed)

end Where

/-! ## What is read alike -/

section Alike

variable {t u : Tree}

theorem Tree.SameAt.fileAlike {path : Path} (h : SameAt t u path) : FileAlike t u path :=
  ⟨h.isFile_eq, fun _ => h.readText_eq⟩

/-- Below a directory that both trees treat alike, it is enough that they hold the same. -/
theorem Tree.SameAt.sourcesAlike {directory : Path} (h : SameAt t u directory)
    (hstudent : ∀ student : String,
      u.node? (student :: t.placeOf directory) = t.node? (student :: t.placeOf directory))
    (hversion : ∀ student version : String, u.node? (version :: student :: t.placeOf directory) =
      t.node? (version :: student :: t.placeOf directory))
    (hfile : ∀ student version : String,
      u.node? (fingerprintFile :: version :: student :: t.placeOf directory) =
        t.node? (fingerprintFile :: version :: student :: t.placeOf directory)) :
    SourcesAlike t u directory := by
  have hnext : ∀ student version : String, SameAt t u (directory / student / version) :=
    fun student version => (h.child (hstudent student)).child (hversion student version)
  refine ⟨fun student => ?_, fun student version => ?_, fun student version => ?_⟩
  · exact (h.child (hstudent student)).isDirectory_eq
  · exact (hnext student version).isDirectory_eq
  · exact ((hnext student version).child (hfile student version)).fileAlike

end Alike

namespace DifferInObstructions

variable {t u : Tree} {root : Path}

theorem leadsTo (h : DifferInObstructions t u root) {path : Path} {place : Place}
    (ht : t.LeadsTo path place) (hu : u.isDirectory path = true) : u.LeadsTo path place := by
  obtain ⟨place', hplace'⟩ := exists_leadsTo hu
  have hsame : place' = place := by
    rw [ht.eq_placeOf, hplace'.eq_placeOf, placeOf_eq h.start]
  exact hsame ▸ hplace'

theorem inObstruction_symm (h : DifferInObstructions t u root) {q : Place}
    (hq : InObstruction t u root q) : InObstruction u t root q := by
  obtain ⟨source, hsource, place, hd, hname⟩ := hq
  exact ⟨source, ⟨hsource.isBelow', hsource.isBelow, hsource.obstructed.symm⟩, place,
    h.leadsTo hd hsource.isBelow'.isDirectory, hname⟩

/-- Neither tree comes first. -/
theorem symm (h : DifferInObstructions t u root) : DifferInObstructions u t root where
  start := h.start.symm
  node q hq := (h.node q fun hq' => hq (h.inObstruction_symm hq')).symm

/-! ## The corpus -/

/-- Where a source is obstructed, both trees lead to the root. -/
theorem sameAt_root (h : DifferInObstructions t u root) {source : Source}
    (hsource : ObstructedIn t u root source) : SameAt t u root := by
  have hbase : ∀ v : Tree, source.IsBelow v (root / usersDirectory) →
      ∃ place, v.base root = .ok place ∧ v.isDirectoryAt place = true := by
    intro v hbelow
    obtain ⟨place, hd⟩ := exists_leadsTo hbelow.isDirectory
    obtain ⟨name, hname, -⟩ := hbelow.named
    rw [hname] at hd
    have hversion := (base_child v _ name).trans hd.1
    obtain ⟨_, hstudent, -⟩ := exists_base_of_child hversion
    obtain ⟨_, husers, -⟩ := exists_base_of_child hstudent
    exact exists_base_of_child husers
  obtain ⟨place, ht⟩ := hbase t hsource.isBelow
  obtain ⟨place', hu⟩ := hbase u hsource.isBelow'
  exact .of_base h.start ht hu

/-- Where no source is obstructed, the trees hold the same everywhere. -/
theorem agree_of_forall_not (h : DifferInObstructions t u root)
    (hnone : ∀ source, ¬ObstructedIn t u root source) : AgreeOutside (fun _ => False) t u := by
  have hnode : ∀ q, u.node? q = t.node? q := by
    intro q
    refine h.node q ?_
    rintro ⟨source, hsource, -⟩
    exact hnone source hsource
  refine ⟨h.start, fun place => ?_, fun place _ => hnode place⟩
  rw [isDirectoryAt, isDirectoryAt, hnode]

/-- Nothing that is loaded is in an obstruction. -/
theorem gradeableAlike_of_sameAt (h : DifferInObstructions t u root) (hroot : SameAt t u root) :
    GradeableAlike t u root := by
  have habove : ∀ inner : List String, inner.length ≤ 3 →
      u.node? (inner ++ t.placeOf root) = t.node? (inner ++ t.placeOf root) := by
    intro inner hinner
    refine h.node _ (not_inObstruction_of_length_le ?_)
    rw [List.length_append]
    omega
  have hbeside : ∀ {name : String}, name ≠ usersDirectory → ∀ inner : List String,
      u.node? (inner ++ name :: t.placeOf root) = t.node? (inner ++ name :: t.placeOf root) :=
    fun hname inner => h.node _ (not_inObstruction_of_ne hname inner)
  have hothers : otherGradeablesDirectory ≠ usersDirectory := by decide
  have hprovided : providedCodeDirectory ≠ usersDirectory := by decide
  -- one name after another, from the root on
  have husers : SameAt t u (root / usersDirectory) := hroot.child (habove [_] (by decide))
  have hother : SameAt t u (root / otherGradeablesDirectory) := hroot.child (hbeside hothers [])
  have hname : ∀ name : String, SameAt t u (root / otherGradeablesDirectory / name) :=
    fun name => hother.child (hbeside hothers [name])
  exact {
    gradeable := hroot.isDirectory_eq
    users := husers.isDirectory_eq
    current := husers.sourcesAlike
      (fun student => habove [student, usersDirectory] (by simp))
      (fun student version => habove [version, student, usersDirectory] (by simp))
      (fun student version => h.node _ (not_inObstruction_fingerprintFile version student))
    provided := ((hroot.child (hbeside hprovided [])).child
      (hbeside hprovided [fingerprintFile])).fileAlike
    others := hother.isDirectory_eq
    other := fun name => (hname name).isDirectory_eq
    earlier := fun name => (hname name).sourcesAlike
      (fun student => hbeside hothers [student, name])
      (fun student version => hbeside hothers [version, student, name])
      (fun student version => hbeside hothers [fingerprintFile, version, student, name]) }

theorem gradeableAlike (h : DifferInObstructions t u root) : GradeableAlike t u root := by
  by_cases hex : ∃ source, ObstructedIn t u root source
  · obtain ⟨source, hsource⟩ := hex
    exact h.gradeableAlike_of_sameAt (h.sameAt_root hsource)
  · have hagree := h.agree_of_forall_not (not_exists.1 hex)
    exact gradeableAlike_of_agree hagree (fun _ => not_false) root

/-- **The same corpus is loaded from both trees.** -/
theorem load_eq (h : DifferInObstructions t u root) (settings : Settings.Gradeable) :
    Corpus.load u root settings = Corpus.load t root settings :=
  Corpus.load_eq_of_alike h.gradeableAlike settings

end DifferInObstructions
end Resemblance
