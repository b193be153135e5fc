import Mathlib.Data.Prod.Lex
import Mathlib.Data.String.Basic
import Resemblance.Proofs.Corpus.Discovery
import Resemblance.Proofs.Diagnosis

/-!
# In which order submissions are found

Discovery walks over two levels of directories.  It lists each level by name, and brings the
versions of a student into the order of their numbers only when it has looked at all of them.  So
notices and faults come in the order of the names, and sources in the order of the numbers.

## What is here

* `IsVersionDirectory`, `Misnamed`, `LacksFingerprints` — the directories at the level of versions.
* `versionDirectories` — all of them, by student and name; discovery fails and logs as if it looked
  at them one after another (`outline_discover`).
* `diagnosis_discover` — when discovery succeeds, and its fault when not.
* `Source.key` — the order of sources; `pairwise_key_discover` says that they are found in it.
* `discover_exact` — all of it.
-/

set_option autoImplicit false
namespace Resemblance

open Resemblance.Tree

/-! ## Listings -/

namespace Tree

/-- The names of the directories in a directory, in order, and none if it cannot be listed. -/
def listed (t : Tree) (path : Path) : List String :=
  (t.directories path).toOption.getD []

variable {t : Tree} {path : Path}

theorem directories_eq_listed (h : t.isDirectory path = true) :
    t.directories path = .ok (t.listed path) := by
  obtain ⟨names, hnames⟩ := exists_directories h
  rw [listed, hnames]
  rfl

theorem mem_listed_iff (h : t.isDirectory path = true) (name : String) :
    name ∈ t.listed path ↔ t.isDirectory (path / name) = true :=
  mem_directories_iff (directories_eq_listed h) name

theorem isDirectory_child_of_mem_listed (h : t.isDirectory path = true) {name : String}
    (hname : name ∈ t.listed path) : t.isDirectory (path / name) = true :=
  (mem_listed_iff h name).1 hname

theorem pairwise_listed (h : t.isDirectory path = true) :
    (t.listed path).Pairwise (· < ·) :=
  (pairwise_directories (directories_eq_listed h)).imp fun hlt => compare_lt_iff_lt.1 hlt

end Tree

/-! ## The level of versions -/

/-- Whether a directory stands at the level of versions below a directory.  It is given by the names
of its student and of itself. -/
def IsVersionDirectory (t : Tree) (directory : Path) (e : String × String) : Prop :=
  t.isDirectory (directory / e.1 / e.2) = true

/-- Whether a directory at the level of versions is named for no version. -/
structure Misnamed (t : Tree) (directory : Path) (e : String × String) : Prop where
  isVersionDirectory : IsVersionDirectory t directory e
  ofName? : Version.ofName? e.2 = none

/-- Whether a directory at the level of versions has no fingerprint file. -/
structure LacksFingerprints (t : Tree) (directory : Path) (e : String × String) : Prop where
  isVersionDirectory : IsVersionDirectory t directory e
  isFile : t.isFile (directory / e.1 / e.2 / fingerprintFile) = false

/-- The directories at the level of versions, by student and then by name. -/
def versionDirectories (t : Tree) (directory : Path) : List (String × String) :=
  (t.listed directory).flatMap fun student =>
    (t.listed (directory / student)).map fun name => (student, name)

section Level

variable {t : Tree} {directory : Path}

theorem mem_versionDirectories_iff (h : t.isDirectory directory = true) (e : String × String) :
    e ∈ versionDirectories t directory ↔ IsVersionDirectory t directory e := by
  simp only [versionDirectories, List.mem_flatMap, List.mem_map]
  refine ⟨?_, fun he => ?_⟩
  · rintro ⟨student, hs, name, hname, rfl⟩
    exact (mem_listed_iff (isDirectory_child_of_mem_listed h hs) name).1 hname
  · have hs := isDirectory_of_isDirectory_child (child_ne_empty _ _) he
    exact ⟨e.1, (mem_listed_iff h _).2 hs, e.2, (mem_listed_iff hs _).2 he, rfl⟩

theorem pairwise_versionDirectories (h : t.isDirectory directory = true) :
    (versionDirectories t directory).Pairwise fun a b => toLex a < toLex b := by
  simp only [Prod.Lex.toLex_lt_toLex]
  refine List.pairwise_flatMap.2 ⟨fun student hs => ?_, ?_⟩
  · rw [List.pairwise_map]
    exact (pairwise_listed (isDirectory_child_of_mem_listed h hs)).imp fun hlt => .inr ⟨rfl, hlt⟩
  · refine (pairwise_listed h).imp fun hlt a ha b hb => .inl ?_
    obtain ⟨_, -, rfl⟩ := List.mem_map.1 ha
    obtain ⟨_, -, rfl⟩ := List.mem_map.1 hb
    exact hlt

end Level

/-! ## Looking at one directory after another -/

/-- Looks at a directory at the level of versions. -/
def inspect (t : Tree) (directory : Path) (e : String × String) : Logged (Option Source) :=
  inspectVersion t e.1 (directory / e.1) e.2

section Inspect

variable {t : Tree} {directory : Path} {e : String × String}

theorem exists_inspect_iff :
    (∃ found, (inspect t directory e).result = .ok found) ↔ Version.ofName? e.2 ≠ none := by
  simp only [inspect, inspectVersion_eq_ok_iff]
  rw [Option.ne_none_iff_exists']
  refine ⟨?_, ?_⟩
  · rintro ⟨_, version, hversion, -⟩
    exact ⟨version, hversion⟩
  · rintro ⟨version, hversion⟩
    exact ⟨_, version, hversion, rfl⟩

theorem inspect_eq_error_iff {fault : Fault} :
    (inspect t directory e).result = .error fault ↔
      Version.ofName? e.2 = none ∧ fault = .inputIn (directory / e.1).text (.badVersion e.2) := by
  rw [inspect, inspectVersion]
  cases Version.ofName? e.2 with
  | none =>
    simp only [Logged.fail, Except.error.injEq, true_and]
    exact eq_comm
  | some version =>
    dsimp only
    split
    · simp [Logged.done]
    · simp

theorem diagnosis_inspect (t : Tree) (directory : Path) (e : String × String) :
    Diagnosis (inspect t directory e).result (Version.ofName? e.2 ≠ none) fun fault =>
      Version.ofName? e.2 = none ∧ fault = .inputIn (directory / e.1).text (.badVersion e.2) :=
  ⟨exists_inspect_iff, fun _ => inspect_eq_error_iff⟩

theorem notices_inspect (hname : Version.ofName? e.2 ≠ none) :
    (inspect t directory e).notices =
      if t.isFile (directory / e.1 / e.2 / fingerprintFile) = true then []
      else [.noFingerprints (directory / e.1 / e.2).text] := by
  obtain ⟨version, hversion⟩ := Option.ne_none_iff_exists'.1 hname
  have hfile : (⟨e.1, version, directory / e.1 / e.2⟩ : Source).file =
      directory / e.1 / e.2 / fingerprintFile := rfl
  simp only [inspect, inspectVersion, hversion, hfile]
  split
  · rfl
  · rfl

theorem notices_inspect_of_error {fault : Fault}
    (h : (inspect t directory e).result = .error fault) : (inspect t directory e).notices = [] := by
  rw [inspect, inspectVersion, (inspect_eq_error_iff.1 h).1]
  rfl

end Inspect

section Discover

variable {t : Tree} {directory : Path}

theorem listDirectories_eq_done (h : t.isDirectory directory = true) :
    listDirectories t directory = .done (t.listed directory) := by
  rw [listDirectories, directories_eq_listed h]
  rfl

theorem outline_listed_bind {α : Type} (h : t.isDirectory directory = true)
    (f : List String → Logged α) :
    (listDirectories t directory >>= f).outline = (f (t.listed directory)).outline := by
  rw [listDirectories_eq_done h]
  rfl

/-- Discovery logs and fails as if it looked at all directories one after another. -/
theorem outline_discover (h : t.isDirectory directory = true) :
    (discover t directory).outline =
      (Logged.each (inspect t directory) (versionDirectories t directory)).outline := by
  rw [discover, outline_listed_bind h, Logged.outline_bind_pure, versionDirectories]
  refine Logged.outline_each_flatMap fun student hs => ?_
  have hstudent := isDirectory_child_of_mem_listed h hs
  rw [discoverStudent, outline_listed_bind hstudent, Logged.outline_bind_pure, Logged.outline_each,
    Logged.outline_each, List.map_map]
  rfl

/-! ## Faults -/

/-- Whether a directory is the first of those that are named for no version, by student and name. -/
structure FirstMisnamed (t : Tree) (directory : Path) (e : String × String) : Prop where
  misnamed : Misnamed t directory e
  first : ∀ e', toLex e' < toLex e → ¬Misnamed t directory e'

/-- **Discovery succeeds exactly if all directories at the level of versions are named for
versions, and its fault names the first of them that is not.** -/
theorem diagnosis_discover (h : t.isDirectory directory = true) :
    Diagnosis (discover t directory).result (∀ e, ¬Misnamed t directory e) fun fault =>
      ∃ e, FirstMisnamed t directory e ∧
        fault = .inputIn (directory / e.1).text (.badVersion e.2) := by
  have heach := Diagnosis.mapM (pairwise_versionDirectories h) (mem_versionDirectories_iff h)
    fun e _ => diagnosis_inspect t directory e
  rw [← Logged.result_each] at heach
  refine (Diagnosis.of_outline_eq (outline_discover h) heach).congr ?_ fun fault => ?_
  · exact ⟨fun hall e he => hall e he.isVersionDirectory he.ofName?,
      fun hall e he hname => hall e ⟨he, hname⟩⟩
  · refine ⟨?_, ?_⟩
    · rintro ⟨e, he, hbefore, hname, rfl⟩
      exact ⟨e, ⟨⟨he, hname⟩, fun e' hlt he' =>
        hbefore e' he'.isVersionDirectory hlt he'.ofName?⟩, rfl⟩
    · rintro ⟨e, ⟨he, hfirst⟩, rfl⟩
      exact ⟨e, he.isVersionDirectory, fun e' he' hlt hname => hfirst e' hlt ⟨he', hname⟩,
        he.ofName?, rfl⟩

/-! ## Notices -/

/-- The notices about directories at the level of versions that are named for versions. -/
theorem flatMap_notices_inspect {es : List (String × String)}
    (hes : ∀ e ∈ es, Version.ofName? e.2 ≠ none) :
    (es.flatMap fun e => (inspect t directory e).notices) =
      (es.filter fun e => !t.isFile (directory / e.1 / e.2 / fingerprintFile)).map fun e =>
        .noFingerprints (directory / e.1 / e.2).text := by
  induction es with
  | nil => rfl
  | cons e es ih =>
    obtain ⟨he, hes⟩ := List.forall_mem_cons.1 hes
    rw [List.flatMap_cons, ih hes, notices_inspect he, List.filter_cons]
    cases t.isFile (directory / e.1 / e.2 / fingerprintFile) with
    | true => rfl
    | false => rfl

/-- A directory that is looked at without success is the first one if all before it were looked at
with success. -/
theorem firstMisnamed_of_split (h : t.isDirectory directory = true) {e : String × String}
    {before after : List (String × String)}
    (heq : versionDirectories t directory = before ++ e :: after)
    (hbefore : ∀ x ∈ before, Version.ofName? x.2 ≠ none) (he : Version.ofName? e.2 = none) :
    FirstMisnamed t directory e := by
  have hmem := mem_versionDirectories_iff h
  have hascending := pairwise_versionDirectories h
  rw [heq] at hmem hascending
  refine ⟨⟨(hmem e).1 (List.mem_append_right _ List.mem_cons_self), he⟩, fun e' hlt he' => ?_⟩
  have hmem' := (mem_before_iff hascending).2 ⟨(hmem e').2 he'.isVersionDirectory, hlt⟩
  exact hbefore e' hmem' he'.ofName?

/-- The directories that discovery looks at before it ends, or fails. -/
theorem exists_looked (h : t.isDirectory directory = true) :
    ∃ looked : List (String × String), looked.Pairwise (fun a b => toLex a < toLex b) ∧
      (∀ e, e ∈ looked ↔ IsVersionDirectory t directory e ∧
        ∀ e', Misnamed t directory e' → toLex e < toLex e') ∧
      (discover t directory).notices =
        looked.flatMap fun e => (inspect t directory e).notices := by
  have hnotices : (discover t directory).notices =
      (Logged.each (inspect t directory) (versionDirectories t directory)).notices :=
    congrArg Logged.notices (outline_discover h)
  have hmem := mem_versionDirectories_iff h
  have hascending := pairwise_versionDirectories h
  cases hresult :
      (Logged.each (inspect t directory) (versionDirectories t directory)).result with
  | ok found =>
    have hok := Logged.exists_each_iff.1 ⟨found, hresult⟩
    refine ⟨_, hascending, fun e => ?_, hnotices.trans (Logged.notices_each_of_ok hok)⟩
    rw [hmem, iff_self_and]
    intro _ e' he'
    have hname := exists_inspect_iff.1 (hok e' ((hmem e').2 he'.isVersionDirectory))
    exact absurd he'.ofName? hname
  | error fault =>
    obtain ⟨before, e, after, heq, hbefore, he⟩ := Logged.each_eq_error_iff.1 hresult
    have hfirst := firstMisnamed_of_split h heq (fun x hx => exists_inspect_iff.1 (hbefore x hx))
      (inspect_eq_error_iff.1 he).1
    rw [heq] at hmem hascending hnotices
    rw [Logged.notices_each_of_error hbefore he, notices_inspect_of_error he,
      List.append_nil] at hnotices
    refine ⟨before, (List.pairwise_append.1 hascending).1, fun x => ?_, hnotices⟩
    rw [mem_before_iff hascending, hmem, and_congr_right_iff]
    intro _
    exact ⟨fun hlt e' he' => lt_of_lt_of_le hlt (not_lt.1 fun hbad => hfirst.first e' hbad he'),
      fun hall => hall e hfirst.misnamed⟩

/-- **Discovery logs one notice for each version directory without fingerprint file**, in the order
of the names and up to the first directory that is named for no version. -/
theorem notices_discover (h : t.isDirectory directory = true) :
    ∃ lacking : List (String × String), lacking.Pairwise (fun a b => toLex a < toLex b) ∧
      (∀ e, e ∈ lacking ↔ LacksFingerprints t directory e ∧
        ∀ e', Misnamed t directory e' → toLex e < toLex e') ∧
      (discover t directory).notices =
        lacking.map fun e => .noFingerprints (directory / e.1 / e.2).text := by
  obtain ⟨looked, hascending, hmem, hnotices⟩ := exists_looked h
  have hnames : ∀ e ∈ looked, Version.ofName? e.2 ≠ none := by
    intro e he hname
    obtain ⟨hdirectory, hbefore⟩ := (hmem e).1 he
    exact lt_irrefl _ (hbefore e ⟨hdirectory, hname⟩)
  rw [flatMap_notices_inspect hnames] at hnotices
  refine ⟨_, hascending.filter _, fun e => ?_, hnotices⟩
  rw [List.mem_filter, hmem, Bool.not_eq_true']
  refine ⟨?_, ?_⟩
  · rintro ⟨⟨hdirectory, hbefore⟩, hfile⟩
    exact ⟨⟨hdirectory, hfile⟩, hbefore⟩
  · rintro ⟨⟨hdirectory, hfile⟩, hbefore⟩
    exact ⟨⟨hdirectory, hbefore⟩, hfile⟩

end Discover

/-! ## The order of sources -/

namespace Source

/-- The name of the directory of a source. -/
def name (source : Source) : String :=
  match source.directory with
  | .child _ name => name
  | .given text => text

/-- The place of a source among others: by student, then by number, and then by the name of its
directory. -/
def key (source : Source) : String ×ₗ Nat ×ₗ String :=
  toLex (source.student, toLex (source.version.toNat, source.name))

theorem key_lt_iff {a b : Source} :
    a.key < b.key ↔ a.student < b.student ∨ a.student = b.student ∧
      (a.version.toNat < b.version.toNat ∨
        a.version.toNat = b.version.toNat ∧ a.name < b.name) := by
  rw [key, key, Prod.Lex.toLex_lt_toLex, Prod.Lex.toLex_lt_toLex]

end Source

section Order

variable {t : Tree} {directory : Path} {sources : List Source}

/-- A source is found under the name of its directory. -/
theorem name_of_inspectVersion {student name : String} {source : Source}
    (h : (inspectVersion t student directory name).result = .ok (some source)) :
    source.name = name := by
  obtain ⟨version, -, hfound⟩ := inspectVersion_eq_ok_iff.1 h
  rw [← Option.some_inj.1 (Option.filter_eq_some_iff.1 hfound.symm).1]
  rfl

/-- The sources of a student come by number and then by name. -/
theorem pairwise_key_discoverStudent {student : String}
    (h : (discoverStudent t directory student).result = .ok sources) :
    sources.Pairwise fun a b => a.key < b.key := by
  have hbelow : ∀ source ∈ sources, source.student = student := fun _ hsource =>
    (isBelow_of_mem_discoverStudent h hsource).1
  rw [discoverStudent, Logged.bind_eq_ok_iff] at h
  obtain ⟨names, hnames, h⟩ := h
  obtain ⟨found, hfound, h⟩ := Logged.bind_eq_ok_iff.1 h
  obtain rfl := Logged.pure_eq_ok_iff.1 h
  have hnamed : (found.filterMap id).Pairwise fun a b => a.name < b.name := by
    rw [List.pairwise_filterMap]
    refine pairwise_of_forall₂ (Logged.each_eq_ok_iff.1 hfound)
      (pairwise_directories (listDirectories_eq_ok_iff.1 hnames)) ?_
    intro name name' a b ha hb hlt source hsource source' hsource'
    rw [id] at hsource hsource'
    rw [name_of_inspectVersion (hsource ▸ ha), name_of_inspectVersion (hsource' ▸ hb)]
    exact compare_lt_iff_lt.1 hlt
  have hle : ∀ a b : Source,
      decide (a.version ≤ b.version) = true ↔ a.version.toNat ≤ b.version.toNat := by
    intro a b
    rw [decide_eq_true_iff, UInt32.le_iff_toNat_le]
  refine (pairwise_mergeSort_of_pairwise hle hnamed).imp_of_mem fun {a b} ha hb hab => ?_
  rw [Source.key_lt_iff]
  exact .inr ⟨(hbelow a ha).trans (hbelow b hb).symm, hab⟩

/-- **Sources are found by student, number and name.** -/
theorem pairwise_key_discover (h : (discover t directory).result = .ok sources) :
    sources.Pairwise fun a b => a.key < b.key := by
  obtain ⟨students, found, hstudents, hfound, rfl⟩ := discover_eq_ok h
  rw [List.pairwise_flatten]
  refine ⟨fun versions hversions => ?_, ?_⟩
  · obtain ⟨student, -, hresult⟩ := exists_of_forall₂ hfound hversions
    exact pairwise_key_discoverStudent hresult
  · refine pairwise_of_forall₂ hfound (pairwise_directories hstudents) ?_
    intro student student' versions versions' hresult hresult' hlt a ha b hb
    rw [Source.key_lt_iff]
    refine .inl ?_
    rw [(isBelow_of_mem_discoverStudent hresult ha).1,
      (isBelow_of_mem_discoverStudent hresult' hb).1]
    exact compare_lt_iff_lt.1 hlt

end Order

/-! ## All of it -/

section Exact

variable {t : Tree} {directory : Path} {sources : List Source}

/-- There is one list of all sources below a directory in their order. -/
theorem eq_of_key_ascending {others : List Source}
    (hsources : sources.Pairwise fun a b => a.key < b.key)
    (hothers : others.Pairwise fun a b => a.key < b.key)
    (hmem : ∀ source, source ∈ sources ↔ source ∈ others) : sources = others := by
  have hne : ∀ {a b : Source}, a.key < b.key → a ≠ b := fun hlt heq => hlt.ne (congrArg _ heq)
  have hperm : sources.Perm others :=
    (List.perm_ext_iff_of_nodup (hsources.imp hne) (hothers.imp hne)).2 hmem
  exact hperm.eq_of_pairwise (fun a b _ _ hab hba => absurd hba hab.asymm) hsources hothers

theorem discover_eq_ok_iff (h : t.isDirectory directory = true) :
    (discover t directory).result = .ok sources ↔
      (∀ e, ¬Misnamed t directory e) ∧ (sources.Pairwise fun a b => a.key < b.key) ∧
        ∀ source, source ∈ sources ↔ source.IsBelow t directory := by
  refine ⟨fun hsources => ?_, ?_⟩
  · exact ⟨(diagnosis_discover h).exists_ok_iff.1 ⟨sources, hsources⟩,
      pairwise_key_discover hsources, fun source => mem_discover_iff hsources⟩
  · rintro ⟨hnames, hascending, hmem⟩
    obtain ⟨found, hfound⟩ := (diagnosis_discover h).exists_ok_iff.2 hnames
    rw [hfound, eq_of_key_ascending hascending (pairwise_key_discover hfound) fun source =>
      (hmem source).trans (mem_discover_iff hfound).symm]

/-- **Discovery is exact.**  Below a directory that is there, it succeeds exactly if all directories
at the level of versions are named for versions.  Then it finds one source for each of them that
holds a fingerprint file, by student, number and name.  Otherwise the fault names the first one, by
student and name, that is named for no version.  It logs one notice for each version directory
without fingerprint file, up to that one. -/
theorem discover_exact (h : t.isDirectory directory = true) :
    ((∃ sources, (discover t directory).result = .ok sources) ↔
      ∀ e, IsVersionDirectory t directory e → ∃ version, Version.ofName? e.2 = some version) ∧
    (∀ sources, (discover t directory).result = .ok sources ↔
      (∀ e, ¬Misnamed t directory e) ∧ (sources.Pairwise fun a b => a.key < b.key) ∧
        ∀ source, source ∈ sources ↔ source.IsBelow t directory) ∧
    (∀ fault, (discover t directory).result = .error fault ↔
      ∃ e, FirstMisnamed t directory e ∧
        fault = .inputIn (directory / e.1).text (.badVersion e.2)) ∧
    ∃ lacking : List (String × String), lacking.Pairwise (fun a b => toLex a < toLex b) ∧
      (∀ e, e ∈ lacking ↔ LacksFingerprints t directory e ∧
        ∀ e', Misnamed t directory e' → toLex e < toLex e') ∧
      (discover t directory).notices =
        lacking.map fun e => .noFingerprints (directory / e.1 / e.2).text := by
  refine ⟨?_, fun sources => discover_eq_ok_iff h, (diagnosis_discover h).eq_error_iff,
    notices_discover h⟩
  rw [(diagnosis_discover h).exists_ok_iff]
  refine ⟨fun hnames e he => ?_, fun hnames e he => ?_⟩
  · exact Option.ne_none_iff_exists'.1 fun hname => hnames e ⟨he, hname⟩
  · obtain ⟨version, hversion⟩ := hnames e he.isVersionDirectory
    exact Option.some_ne_none version (hversion.symm.trans he.ofName?)

end Exact

/-- Two students: the second version of one has no fingerprints, and the names of the versions of
the other are not in the order of their numbers. -/
def mixedFiles : Tree where
  start := []
  nodes := .ofList [
    (["g"], .directory), (["notes.txt", "g"], .file "ignored".toUTF8),
    (["alice", "g"], .directory), (["1", "alice", "g"], .directory),
    (["hashes.txt", "1", "alice", "g"], .file "1".toUTF8), (["2", "alice", "g"], .directory),
    (["bob", "g"], .directory), (["10", "bob", "g"], .directory),
    (["hashes.txt", "10", "bob", "g"], .file "1".toUTF8), (["9", "bob", "g"], .directory),
    (["hashes.txt", "9", "bob", "g"], .file "1".toUTF8)] compare

def mixedRoot : Path := .given "g"

def mixedSources : List Source :=
  [⟨"alice", 1, mixedRoot / "alice" / "1"⟩, ⟨"bob", 9, mixedRoot / "bob" / "9"⟩,
    ⟨"bob", 10, mixedRoot / "bob" / "10"⟩]

theorem discover_mixedFiles : (discover mixedFiles mixedRoot).result = .ok mixedSources := by
  have hstudents : (listDirectories mixedFiles mixedRoot).result = .ok ["alice", "bob"] :=
    toOption_eq_some_iff.1 (by decide +kernel)
  have halice : (discoverStudent mixedFiles mixedRoot "alice").result =
      .ok [⟨"alice", 1, mixedRoot / "alice" / "1"⟩] := by
    have hnames : (listDirectories mixedFiles (mixedRoot / "alice")).result = .ok ["1", "2"] :=
      toOption_eq_some_iff.1 (by decide +kernel)
    have hfound : (Logged.each (inspectVersion mixedFiles "alice" (mixedRoot / "alice"))
        ["1", "2"]).result = .ok [some ⟨"alice", 1, mixedRoot / "alice" / "1"⟩, none] :=
      toOption_eq_some_iff.1 (by decide +kernel)
    exact discoverStudent_of_ascending hnames hfound (List.pairwise_singleton _ _)
  have hbob : (discoverStudent mixedFiles mixedRoot "bob").result =
      .ok [⟨"bob", 9, mixedRoot / "bob" / "9"⟩, ⟨"bob", 10, mixedRoot / "bob" / "10"⟩] := by
    have hnames : (listDirectories mixedFiles (mixedRoot / "bob")).result = .ok ["10", "9"] :=
      toOption_eq_some_iff.1 (by decide +kernel)
    have hfound : (Logged.each (inspectVersion mixedFiles "bob" (mixedRoot / "bob"))
        ["10", "9"]).result = .ok [some ⟨"bob", 10, mixedRoot / "bob" / "10"⟩,
          some ⟨"bob", 9, mixedRoot / "bob" / "9"⟩] :=
      toOption_eq_some_iff.1 (by decide +kernel)
    rw [discoverStudent, Logged.bind_eq_ok_iff]
    refine ⟨_, hnames, Logged.bind_eq_ok_iff.2 ⟨_, hfound, Logged.pure_eq_ok_iff.2 ?_⟩⟩
    -- the names are in order, and the numbers are not
    simp [List.mergeSort, List.MergeSort.Internal.splitInTwo]
  exact discover_of_forall₂ hstudents (.cons halice (.cons hbob .nil))

theorem discover_exact_mixed :
    mixedFiles.isDirectory mixedRoot = true ∧
    (mixedSources.Pairwise fun a b => a.key < b.key) ∧
    (∀ source, source ∈ mixedSources ↔ source.IsBelow mixedFiles mixedRoot) ∧
    .noFingerprints (mixedRoot / "alice" / "2").text ∈ (discover mixedFiles mixedRoot).notices := by
  have hroot : mixedFiles.isDirectory mixedRoot = true := by decide +kernel
  obtain ⟨-, hsources, -, lacking, -, hlacking, hnotices⟩ := discover_exact hroot
  obtain ⟨hnames, hascending, hmem⟩ := (hsources _).1 discover_mixedFiles
  refine ⟨hroot, hascending, hmem, ?_⟩
  rw [hnotices]
  refine List.mem_map.2 ⟨("alice", "2"), (hlacking _).2 ⟨⟨?_, ?_⟩, fun e he => ?_⟩, rfl⟩
  · unfold IsVersionDirectory
    decide +kernel
  · decide +kernel
  · exact absurd he (hnames e)

end Resemblance
