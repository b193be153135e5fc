import Resemblance.Classify
import Resemblance.Notice
import Resemblance.Settings.Gradeable
import Resemblance.Tree

/-!
# Loading submissions

A gradeable is a directory with the fingerprint files of its submissions:

* `users/<student>/<version>/hashes.txt` — the submissions to compare;
* `provided_code/hashes.txt` — the code that students were given, if there was any;
* `other_gradeables/<gradeable>/<student>/<version>/hashes.txt` — earlier submissions.

## What is here

* `Source` — a version directory with a fingerprint file, and `Source.load`, which reads it.
* `discover` — the sources below a directory: students in order of their names, the versions of
  each by number.  Entries that are no directories are passed over.  A version directory without
  fingerprint file is skipped with a notice, and one whose name is no version is a fault.
* `loadIndex`, `loadProvidedCode`, `loadOtherGradeables` — what submissions are compared with.
* `Corpus.load` — all of it.
-/

set_option autoImplicit false
namespace Resemblance

/-! ## Names -/

/-- The directory of the submissions to compare. -/
def usersDirectory : String := "users"

/-- The directory of the provided code. -/
def providedCodeDirectory : String := "provided_code"

/-- The directory of earlier gradeables. -/
def otherGradeablesDirectory : String := "other_gradeables"

/-- The name of fingerprint files. -/
def fingerprintFile : String := "hashes.txt"

/-! ## Fingerprint files -/

/-- The fingerprints in a file, in order. -/
def readFingerprints (t : Tree) (path : Path) : Except Fault (List Fingerprint) :=
  match t.readText path with
  | .error e => .error (.file e)
  | .ok text =>
    match Fingerprint.ofText text with
    | .error word => .error (.inputIn path.text (.badFingerprint word))
    | .ok fingerprints => .ok fingerprints

/-- A version directory that holds a fingerprint file. -/
structure Source where
  student : String
  version : Version
  directory : Path
  deriving DecidableEq

namespace Source

/-- The fingerprint file. -/
def file (s : Source) : Path :=
  s.directory / fingerprintFile

/-- The submission in the directory. -/
def load (s : Source) (t : Tree) : Except Fault Submission :=
  (readFingerprints t s.file).map fun fingerprints =>
    ⟨s.student, s.version, fingerprints.toArray⟩

end Source

/-! ## Discovery -/

/-- The names of the directories in a directory, in order. -/
def listDirectories (t : Tree) (path : Path) : Logged (List String) :=
  .ofExcept ((t.directories path).mapError .file)

/-- Looks at one version directory of a student. -/
def inspectVersion (t : Tree) (student : String) (directory : Path) (name : String) :
    Logged (Option Source) :=
  match Version.ofName? name with
  | none => .fail (.inputIn directory.text (.badVersion name))
  | some version =>
    let source : Source := ⟨student, version, directory / name⟩
    if t.isFile source.file then .done (some source)
    else ⟨[.noFingerprints source.directory.text], .ok none⟩

/-- The sources of one student, by number.  Directories of the same number stay in the order of
their names. -/
def discoverStudent (t : Tree) (directory : Path) (student : String) : Logged (List Source) := do
  let names ← listDirectories t (directory / student)
  let found ← Logged.each (inspectVersion t student (directory / student)) names
  return (found.filterMap id).mergeSort fun a b => a.version ≤ b.version

/-- The sources below a directory. -/
def discover (t : Tree) (directory : Path) : Logged (List Source) := do
  let students ← listDirectories t directory
  let found ← Logged.each (discoverStudent t directory) students
  return found.flatten

/-! ## What submissions are compared with -/

/-- The index of the submissions in a list of sources. -/
def loadIndex (t : Tree) (label : String) (sources : List Source) : Except Fault Index :=
  (sources.mapM fun source : Source => source.load t).map (Index.ofSubmissions label)

/-- The provided code of a gradeable, if it has a file of it. -/
def loadProvidedCode (t : Tree) (root : Path) : Except Fault (Option ProvidedCode) :=
  let path := root / providedCodeDirectory / fingerprintFile
  if t.isFile path then (readFingerprints t path).map (some ∘ ProvidedCode.ofFingerprints)
  else .ok none

/-- The index of an earlier gradeable, under the name of its directory. -/
def loadOtherGradeable (t : Tree) (directory : Path) (name : String) : Logged Index := do
  let sources ← discover t (directory / name)
  .ofExcept (loadIndex t name sources)

/-- The indices of the earlier gradeables, in order of their names. -/
def loadOtherGradeables (t : Tree) (root : Path) : Logged (List Index) :=
  let directory := root / otherGradeablesDirectory
  if t.isDirectory directory then do
    let names ← listDirectories t directory
    Logged.each (loadOtherGradeable t directory) names
  else .done []

/-- The sources of a gradeable and what their submissions are compared with. -/
structure Corpus where
  reference : Reference
  sources : List Source

/-- Reads everything a gradeable holds. -/
def Corpus.load (t : Tree) (root : Path) (settings : Settings.Gradeable) : Logged Corpus :=
  let users := root / usersDirectory
  if !t.isDirectory root then .fail (.settings (.noGradeableDirectory root.text))
  else if !t.isDirectory users then .fail (.settings (.noUsersDirectory users.text))
  else do
    let sources ← discover t users
    let current ← .ofExcept (loadIndex t settings.label sources)
    let provided ←
      if settings.providedCodeEnabled then .ofExcept (loadProvidedCode t root) else .done none
    let others ← loadOtherGradeables t root
    return ⟨⟨current, provided, others, settings.threshold⟩, sources⟩

end Resemblance
