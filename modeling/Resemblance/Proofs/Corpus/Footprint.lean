import Resemblance.Proofs.Corpus.Discovery

/-!
# What loading reads

Loading asks of some paths whether they lead to directories, and of the paths of fingerprint files
whether they lead to files and which text these hold.  Nothing else of a tree matters, so two trees
that give the same answers have the same corpus.  Wherever loading reads something, it has asked
before whether it is there, and this is what makes the faults the same as well.

## What is here

* `FileAlike`, `SourcesAlike`, `GradeableAlike` — the answers of two trees for a file, for the
  sources below a directory, and for a whole gradeable.
* `discover_eq` — the sources below a directory are the same.
* `Corpus.load_eq_of_alike` — so is the whole corpus, with its notices and faults.
-/

set_option autoImplicit false
namespace Resemblance

open Resemblance.Tree

/-- A path leads to a file in both trees or in none, and the file holds the same. -/
structure FileAlike (t u : Tree) (path : Path) : Prop where
  isFile : u.isFile path = t.isFile path
  text : t.isFile path = true → u.readText path = t.readText path

/-- Two trees have the same directories of students and versions below a directory, and the same
fingerprint files in these. -/
structure SourcesAlike (t u : Tree) (directory : Path) : Prop where
  student : ∀ student : String,
    u.isDirectory (directory / student) = t.isDirectory (directory / student)
  version : ∀ student version : String,
    u.isDirectory (directory / student / version) = t.isDirectory (directory / student / version)
  file : ∀ student version : String, FileAlike t u (directory / student / version / fingerprintFile)

/-- Two trees hold the same of all that is loaded of a gradeable. -/
structure GradeableAlike (t u : Tree) (root : Path) : Prop where
  gradeable : u.isDirectory root = t.isDirectory root
  users : u.isDirectory (root / usersDirectory) = t.isDirectory (root / usersDirectory)
  current : SourcesAlike t u (root / usersDirectory)
  provided : FileAlike t u (root / providedCodeDirectory / fingerprintFile)
  others : u.isDirectory (root / otherGradeablesDirectory) =
    t.isDirectory (root / otherGradeablesDirectory)
  other : ∀ name : String, u.isDirectory (root / otherGradeablesDirectory / name) =
    t.isDirectory (root / otherGradeablesDirectory / name)
  earlier : ∀ name : String, SourcesAlike t u (root / otherGradeablesDirectory / name)

variable {t u : Tree}

/-! ## Directories -/

/-- Directories with the same directories in them have the same listing. -/
theorem listDirectories_eq {path : Path} (ht : t.isDirectory path = true)
    (hu : u.isDirectory path = true)
    (h : ∀ name : String, u.isDirectory (path / name) = t.isDirectory (path / name)) :
    listDirectories u path = listDirectories t path := by
  rw [listDirectories, listDirectories, directories_congr ht hu h]

/-- What is found in a directory that was listed. -/
theorem isDirectory_of_mem_listed {path : Path} {names : List String}
    (h : (listDirectories t path).result = .ok names) {name : String} (hname : name ∈ names) :
    t.isDirectory (path / name) = true :=
  (mem_directories_iff (listDirectories_eq_ok_iff.1 h) name).1 hname

namespace SourcesAlike

variable {directory : Path} (h : SourcesAlike t u directory)

include h

theorem inspectVersion_eq (student name : String) :
    inspectVersion u student (directory / student) name =
      inspectVersion t student (directory / student) name := by
  unfold inspectVersion
  cases Version.ofName? name with
  | none => rfl
  | some version =>
    have hfile := (h.file student name).isFile
    show (if u.isFile (directory / student / name / fingerprintFile) then _ else _) = _
    rw [hfile]
    rfl

theorem discoverStudent_eq {student : String} (hd : t.isDirectory (directory / student) = true) :
    discoverStudent u directory student = discoverStudent t directory student := by
  have hlisted :
      listDirectories u (directory / student) = listDirectories t (directory / student) :=
    listDirectories_eq hd ((h.student student).trans hd) (h.version student)
  rw [discoverStudent, discoverStudent, hlisted]
  refine Logged.bind_congr ?_
  intro names _
  rw [Logged.each_congr fun name _ => h.inspectVersion_eq student name]

/-- **What is found below a directory is the same.** -/
theorem discover_eq (ht : t.isDirectory directory = true) (hu : u.isDirectory directory = true) :
    discover u directory = discover t directory := by
  rw [discover, discover, listDirectories_eq ht hu h.student]
  refine Logged.bind_congr ?_
  intro students hstudents
  rw [Logged.each_congr fun student hstudent =>
    h.discoverStudent_eq (isDirectory_of_mem_listed hstudents hstudent)]

end SourcesAlike

/-! ## Fingerprint files -/

theorem readFingerprints_eq {path : Path} (h : FileAlike t u path) (hfile : t.isFile path = true) :
    readFingerprints u path = readFingerprints t path := by
  rw [readFingerprints, readFingerprints, h.text hfile]

/-- **A submission that is read again is the same.** -/
theorem Source.load_eq_of_alike {source : Source} (h : FileAlike t u source.file)
    (hfile : t.isFile source.file = true) : source.load u = source.load t := by
  rw [load, load, readFingerprints_eq h hfile]

/-- The fingerprint file of a source that was found is the same in both trees. -/
theorem Source.IsBelow.fileAlike {directory : Path} {source : Source}
    (hsource : source.IsBelow t directory) (h : SourcesAlike t u directory) :
    FileAlike t u source.file := by
  obtain ⟨name, hname, -⟩ := hsource.named
  rw [Source.file, hname]
  exact h.file source.student name

theorem loadIndex_eq {directory : Path} (h : SourcesAlike t u directory) (label : String)
    {sources : List Source} (hsources : ∀ source ∈ sources, source.IsBelow t directory) :
    loadIndex u label sources = loadIndex t label sources := by
  have hload : ∀ source ∈ sources, source.load u = source.load t := by
    intro source hsource
    exact Source.load_eq_of_alike ((hsources source hsource).fileAlike h)
      (hsources source hsource).isFile
  rw [loadIndex, loadIndex, mapM_congr hload]

theorem loadProvidedCode_eq {root : Path}
    (h : FileAlike t u (root / providedCodeDirectory / fingerprintFile)) :
    loadProvidedCode u root = loadProvidedCode t root := by
  simp only [loadProvidedCode, h.isFile]
  split
  · rename_i hfile
    rw [readFingerprints_eq h hfile]
  · rfl

/-! ## The corpus -/

namespace GradeableAlike

variable {root : Path} (h : GradeableAlike t u root)

include h

theorem loadOtherGradeable_eq {name : String}
    (hd : t.isDirectory (root / otherGradeablesDirectory / name) = true) :
    loadOtherGradeable u (root / otherGradeablesDirectory) name =
      loadOtherGradeable t (root / otherGradeablesDirectory) name := by
  have hfound := (h.earlier name).discover_eq hd ((h.other name).trans hd)
  rw [loadOtherGradeable, loadOtherGradeable, hfound]
  refine Logged.bind_congr ?_
  intro sources hsources
  rw [loadIndex_eq (h.earlier name) name fun source hsource =>
    isBelow_of_mem_discover hsources hsource]

theorem loadOtherGradeables_eq : loadOtherGradeables u root = loadOtherGradeables t root := by
  simp only [loadOtherGradeables, h.others]
  split
  · rename_i hd
    rw [listDirectories_eq hd (h.others.trans hd) h.other]
    refine Logged.bind_congr ?_
    intro names hnames
    exact Logged.each_congr fun name hname =>
      h.loadOtherGradeable_eq (isDirectory_of_mem_listed hnames hname)
  · rfl

end GradeableAlike

/-- **The corpus is the same**, and where it cannot be loaded the fault is the same. -/
theorem Corpus.load_eq_of_alike {root : Path} (h : GradeableAlike t u root)
    (settings : Settings.Gradeable) :
    Corpus.load u root settings = Corpus.load t root settings := by
  simp only [load, h.gradeable, h.users, loadProvidedCode_eq h.provided, h.loadOtherGradeables_eq]
  split
  · rfl
  · split
    · rfl
    · rename_i husers
      have hd : t.isDirectory (root / usersDirectory) = true := by simpa using husers
      rw [h.current.discover_eq hd (h.users.trans hd)]
      refine Logged.bind_congr ?_
      intro sources hsources
      rw [loadIndex_eq h.current settings.label fun source hsource =>
        isBelow_of_mem_discover hsources hsource]

end Resemblance
