import Resemblance.Proofs.Classify.Mutual
import Resemblance.Proofs.Corpus.Stable

/-!
# Which files a peer stands for

Places are reported under a peer: a student, a version and the label of a gradeable.  The version is
read off the name of a directory, and a number can be written in several ways; the label of the
current gradeable is made up from the settings, and the labels of earlier ones are the names of
directories.  So nothing makes sure that a peer stands for one file only, and when it stands for
several their fingerprints are mixed up.

## What is here

* `HoldsVersion`, `IsGradeable`, `LoadedAs` — the files that are loaded, and under which peer.
* `mem_locations_iff_loadedAs` — the places of a peer in the indices are those of all its files.
* `Unambiguous` — no version is there in two spellings, and none is there both now and in an earlier
  gradeable with the label of the current one.
* `peers_identify_iff` — this is exactly when every peer stands for one file.
* `twiceFiles` — a gradeable in which one does not.
-/

set_option autoImplicit false
namespace Resemblance

open Resemblance.Tree

/-! ## The files of a peer -/

/-- Whether a student has a directory of a name in a gradeable that denotes a version and holds a
fingerprint file. -/
def HoldsVersion (t : Tree) (directory : Path) (student name : String) (version : Version) : Prop :=
  Version.ofName? name = some version ∧
    t.isFile (directory / student / name / fingerprintFile) = true

/-- The directories of the gradeables that are loaded, by label. -/
inductive IsGradeable (root : Path) (settings : Settings.Gradeable) : String → Path → Prop
  | current : IsGradeable root settings settings.label (root / usersDirectory)
  | earlier (name : String) :
      IsGradeable root settings name (root / otherGradeablesDirectory / name)

/-- Whether a fingerprint file is loaded as that of a peer. -/
def LoadedAs (t : Tree) (root : Path) (settings : Settings.Gradeable) (peer : Peer) (file : Path) :
    Prop :=
  ∃ directory, IsGradeable root settings peer.gradeable directory ∧
    ∃ name, HoldsVersion t directory peer.student name peer.version ∧
      file = directory / peer.student / name / fingerprintFile

/-- Whether a file has a fingerprint at a position. -/
def FileHasAt (t : Tree) (file : Path) (f : Fingerprint) (p : Position) : Prop :=
  ∃ fingerprints, readFingerprints t file = .ok fingerprints ∧ 1 ≤ p.toNat ∧
    fingerprints[p.toNat - 1]? = some f

/-- A version is held where its source stands. -/
theorem holdsVersion_iff {t : Tree} {directory : Path} {student name : String} {version : Version} :
    HoldsVersion t directory student name version ↔
      Source.IsBelow t directory ⟨student, version, directory / student / name⟩ := by
  constructor
  · rintro ⟨hname, hfile⟩
    exact ⟨⟨name, rfl, hname⟩, isDirectory_of_isFile_child (child_ne_empty _ _) hfile, hfile⟩
  · rintro ⟨⟨name', hdirectory, hname⟩, -, hfile⟩
    obtain rfl : name = name' := (Path.child.inj hdirectory).2
    exact ⟨hname, hfile⟩

/-- A submission has the fingerprints of its file. -/
theorem exists_load_iff {t : Tree} {source : Source} {f : Fingerprint} {p : Position} :
    (∃ b, source.load t = .ok b ∧ b.fingerprintAt? p = some f) ↔ FileHasAt t source.file f p := by
  simp only [Source.load, map_eq_ok_iff, Submission.fingerprintAt?_eq_some_iff]
  constructor
  · rintro ⟨_, ⟨fingerprints, hread, rfl⟩, hf⟩
    exact ⟨fingerprints, hread, by simpa using hf⟩
  · rintro ⟨fingerprints, hread, hf⟩
    exact ⟨_, ⟨fingerprints, hread, rfl⟩, by simpa using hf⟩

/-! ## Indices and files -/

section Indices

variable {t : Tree} {root : Path} {settings : Settings.Gradeable}

/-- The places in the index of a gradeable are those of the files in its directory. -/
theorem mem_locations_iff_holdsVersion {directory : Path} {label : String} {sources : List Source}
    {i : Index} (hsources : (discover t directory).result = .ok sources)
    (hindex : loadIndex t label sources = .ok i) (f : Fingerprint) (x : Location) :
    x ∈ i.locations f ↔ x.peer.gradeable = label ∧
      ∃ name, HoldsVersion t directory x.peer.student name x.peer.version ∧
        FileHasAt t (directory / x.peer.student / name / fingerprintFile) f x.position := by
  constructor
  · intro hx
    obtain ⟨hlabel, source, hsource, hstudent, hversion, hload⟩ := hasAt_of_mem_locations hindex hx
    have hbelow := (mem_discover_iff hsources).1 hsource
    obtain ⟨name, hname, hnumber⟩ := hbelow.named
    have hfile := hbelow.isFile
    rw [exists_load_iff] at hload
    rw [Source.file, hname, hstudent] at hfile hload
    exact ⟨hlabel, name, ⟨hversion ▸ hnumber, hfile⟩, hload⟩
  · rintro ⟨hlabel, name, hholds, hf⟩
    have hsource := (mem_discover_iff hsources).2 (holdsVersion_iff.1 hholds)
    exact mem_locations_of_hasAt hindex ⟨hlabel, _, hsource, rfl, rfl, exists_load_iff.2 hf⟩

/-- The indices of earlier gradeables are those of their directories. -/
theorem loadOtherGradeables_eq_ok {others : List Index}
    (h : (loadOtherGradeables t root).result = .ok others) :
    (∀ i ∈ others, ∃ name sources,
      (discover t (root / otherGradeablesDirectory / name)).result = .ok sources ∧
        loadIndex t name sources = .ok i) ∧
    ∀ name : String, t.isDirectory (root / otherGradeablesDirectory / name) = true →
      ∃ i ∈ others, ∃ sources,
        (discover t (root / otherGradeablesDirectory / name)).result = .ok sources ∧
          loadIndex t name sources = .ok i := by
  have hone : ∀ name i,
      (loadOtherGradeable t (root / otherGradeablesDirectory) name).result = .ok i →
      ∃ sources, (discover t (root / otherGradeablesDirectory / name)).result = .ok sources ∧
        loadIndex t name sources = .ok i := by
    intro name i hi
    rw [loadOtherGradeable, Logged.bind_eq_ok_iff] at hi
    exact hi
  unfold loadOtherGradeables at h
  dsimp only at h
  split at h
  · obtain ⟨names, hnames, h⟩ := Logged.bind_eq_ok_iff.1 h
    have hlisted := listDirectories_eq_ok_iff.1 hnames
    rw [Logged.each_eq_ok_iff] at h
    constructor
    · intro i hi
      obtain ⟨name, -, hi⟩ := exists_of_forall₂ h hi
      exact ⟨name, hone name i hi⟩
    · intro name hname
      obtain ⟨i, hi, hresult⟩ :=
        exists_mem_of_forall₂ h ((mem_directories_iff hlisted name).2 hname)
      exact ⟨i, hi, hone name i hresult⟩
  · rename_i hnone
    obtain rfl := Except.ok.inj h
    refine ⟨fun i hi => absurd hi List.not_mem_nil, fun name hname => absurd ?_ hnone⟩
    exact isDirectory_of_isDirectory_child (child_ne_empty _ _) hname

/-- **The places of a peer in the indices are those of all files that are loaded as its own.** -/
theorem mem_locations_iff_loadedAs {corpus : Corpus}
    (h : (Corpus.load t root settings).result = .ok corpus) (f : Fingerprint) (x : Location) :
    (∃ i ∈ corpus.reference.current :: corpus.reference.others, x ∈ i.locations f) ↔
      ∃ file, LoadedAs t root settings x.peer file ∧ FileHasAt t file f x.position := by
  obtain ⟨-, hsources, hcurrent, hothers⟩ := Corpus.load_eq_ok h
  obtain ⟨hindex, hdirectory⟩ := loadOtherGradeables_eq_ok hothers
  constructor
  · rintro ⟨i, hi, hx⟩
    rcases List.mem_cons.1 hi with rfl | hi
    · obtain ⟨hlabel, name, hholds, hf⟩ :=
        (mem_locations_iff_holdsVersion hsources hcurrent f x).1 hx
      exact ⟨_, ⟨_, hlabel ▸ .current, name, hholds, rfl⟩, hf⟩
    · obtain ⟨label, sources, hsources, hload⟩ := hindex i hi
      obtain ⟨hlabel, name, hholds, hf⟩ :=
        (mem_locations_iff_holdsVersion hsources hload f x).1 hx
      exact ⟨_, ⟨_, hlabel ▸ .earlier _, name, hholds, rfl⟩, hf⟩
  · rintro ⟨_, ⟨directory, hgradeable, name, hholds, rfl⟩, hf⟩
    obtain ⟨⟨student, version, label⟩, position⟩ := x
    dsimp only at hgradeable hholds hf
    cases hgradeable with
    | current =>
      exact ⟨_, List.mem_cons_self,
        (mem_locations_iff_holdsVersion hsources hcurrent f _).2 ⟨rfl, name, hholds, hf⟩⟩
    | earlier =>
      have hversion := (holdsVersion_iff.1 hholds).isDirectory
      have hstudent := isDirectory_of_isDirectory_child (child_ne_empty _ _) hversion
      have hlabel := isDirectory_of_isDirectory_child (child_ne_empty _ _) hstudent
      obtain ⟨i, hi, sources, hsources, hload⟩ := hdirectory label hlabel
      exact ⟨i, List.mem_cons_of_mem _ hi,
        (mem_locations_iff_holdsVersion hsources hload f _).2 ⟨rfl, name, hholds, hf⟩⟩

end Indices

/-! ## One file for each peer -/

/-- Whether nothing is loaded twice under one peer: no student has a version in two spellings, and
none has a version both now and in an earlier gradeable with the label of the current one. -/
structure Unambiguous (t : Tree) (root : Path) (settings : Settings.Gradeable) : Prop where
  spelling : ∀ label directory, IsGradeable root settings label directory →
    ∀ student name name' version, HoldsVersion t directory student name version →
      HoldsVersion t directory student name' version → name = name'
  label : ∀ student name name' version,
    HoldsVersion t (root / usersDirectory) student name version →
      ¬HoldsVersion t (root / otherGradeablesDirectory / settings.label) student name' version

section Unambiguous

variable {t : Tree} {root : Path} {settings : Settings.Gradeable}

theorem ne_child (path : Path) (name : String) : path ≠ path / name := by
  induction path generalizing name with
  | given text => exact fun heq => Path.noConfusion heq
  | child directory inner ih => exact fun heq => ih inner (Path.child.inj heq).1

theorem Unambiguous.eq_of_loadedAs (h : Unambiguous t root settings) {peer : Peer} {a b : Path}
    (ha : LoadedAs t root settings peer a) (hb : LoadedAs t root settings peer b) : a = b := by
  obtain ⟨student, version, label⟩ := peer
  obtain ⟨directory, hgradeable, name, hholds, rfl⟩ := ha
  obtain ⟨directory', hgradeable', name', hholds', rfl⟩ := hb
  dsimp only at hgradeable hgradeable' hholds hholds'
  have hsame : directory = directory' := by
    cases hgradeable with
    | current =>
      cases hgradeable' with
      | current => rfl
      | earlier => exact absurd hholds' (h.label student name name' version hholds)
    | earlier =>
      cases hgradeable' with
      | current => exact absurd hholds (h.label student name' name version hholds')
      | earlier => rfl
  subst hsame
  rw [h.spelling label directory hgradeable student name name' version hholds hholds']

theorem unambiguous_of_loadedAs
    (h : ∀ peer a b, LoadedAs t root settings peer a → LoadedAs t root settings peer b → a = b) :
    Unambiguous t root settings where
  spelling label directory hgradeable student name name' version hholds hholds' := by
    have heq := h ⟨student, version, label⟩ _ _ ⟨directory, hgradeable, name, hholds, rfl⟩
      ⟨directory, hgradeable, name', hholds', rfl⟩
    exact (Path.child.inj (Path.child.inj heq).1).2
  label student name name' version hholds hholds' := by
    have heq := h ⟨student, version, settings.label⟩ _ _ ⟨_, .current, name, hholds, rfl⟩
      ⟨_, .earlier _, name', hholds', rfl⟩
    -- the directory of users would be in that of an earlier gradeable
    have hdirectory := (Path.child.inj (Path.child.inj (Path.child.inj heq).1).1).1
    exact ne_child root otherGradeablesDirectory (Path.child.inj hdirectory).1

/-- When numbers are written without sign and leading zeros and no earlier gradeable bears the label
of the current one, nothing is loaded twice under one peer. -/
theorem unambiguous_of_decimal
    (hname : ∀ label directory, IsGradeable root settings label directory →
      ∀ student name version, HoldsVersion t directory student name version →
        name = toString version.toNat)
    (hlabel : t.isDirectory (root / otherGradeablesDirectory / settings.label) = false) :
    Unambiguous t root settings where
  spelling label directory hgradeable student name name' version hholds hholds' := by
    rw [hname label directory hgradeable student name version hholds,
      hname label directory hgradeable student name' version hholds']
  label student name name' version _ hholds' := by
    have hversion := (holdsVersion_iff.1 hholds').isDirectory
    have hstudent := isDirectory_of_isDirectory_child (child_ne_empty _ _) hversion
    have hearlier := isDirectory_of_isDirectory_child (child_ne_empty _ _) hstudent
    exact Bool.false_ne_true (hlabel.symm.trans hearlier)

end Unambiguous

/-- **What a peer stands for.**  Once a corpus is loaded, the places of a peer in its indices are
those of all files that are loaded under this peer, and every place that a comparison cites is one
of them.  Each peer stands for one file exactly when no student has a version in two spellings, or
both now and in an earlier gradeable with the label of the current one. -/
theorem peers_identify_iff {t : Tree} {root : Path} {settings : Settings.Gradeable}
    {corpus : Corpus} (h : (Corpus.load t root settings).result = .ok corpus) :
    (∀ f x, (∃ i ∈ corpus.reference.current :: corpus.reference.others, x ∈ i.locations f) ↔
      ∃ file, LoadedAs t root settings x.peer file ∧ FileHasAt t file f x.position) ∧
    (∀ s width p x, (classify corpus.reference s width).Cites p x →
      ∃ file f, LoadedAs t root settings x.peer file ∧ s.fingerprintAt? p = some f ∧
        FileHasAt t file f x.position) ∧
    ((∀ peer a b, LoadedAs t root settings peer a → LoadedAs t root settings peer b → a = b) ↔
      Unambiguous t root settings) := by
  refine ⟨mem_locations_iff_loadedAs h, fun s width p x hcites => ?_, unambiguous_of_loadedAs,
    fun hone peer a b => hone.eq_of_loadedAs⟩
  obtain ⟨f, hf, hx⟩ := mem_locations_of_cites hcites
  obtain ⟨file, hloaded, hat⟩ := (mem_locations_iff_loadedAs h f x).1 hx
  exact ⟨file, f, hloaded, hf, hat⟩

/-- A gradeable in which a student has two directories for the first version. -/
def twiceFiles : Tree where
  start := []
  nodes := .ofList [
    (["g"], .directory), (["users", "g"], .directory), (["bob", "users", "g"], .directory),
    (["1", "bob", "users", "g"], .directory),
    (["hashes.txt", "1", "bob", "users", "g"], .file "7".toUTF8),
    (["01", "bob", "users", "g"], .directory),
    (["hashes.txt", "01", "bob", "users", "g"], .file "8".toUTF8)] compare

def twiceRoot : Path := .given "g"

def twiceSettings : Settings.Gradeable :=
  { semester := "s", course := "c", gradeable := "hw", providedCodeEnabled := false }

def twiceSources : List Source :=
  [⟨"bob", 1, twiceRoot / usersDirectory / "bob" / "01"⟩,
    ⟨"bob", 1, twiceRoot / usersDirectory / "bob" / "1"⟩]

theorem exists_load_twiceFiles :
    ∃ corpus, (Corpus.load twiceFiles twiceRoot twiceSettings).result = .ok corpus ∧
      corpus.sources = twiceSources := by
  have hstudents : (listDirectories twiceFiles (twiceRoot / usersDirectory)).result = .ok ["bob"] :=
    toOption_eq_some_iff.1 (by decide +kernel)
  have hnames : (listDirectories twiceFiles (twiceRoot / usersDirectory / "bob")).result =
      .ok ["01", "1"] := toOption_eq_some_iff.1 (by decide +kernel)
  have hfound : (Logged.each (inspectVersion twiceFiles "bob" (twiceRoot / usersDirectory / "bob"))
      ["01", "1"]).result = .ok (twiceSources.map some) :=
    toOption_eq_some_iff.1 (by decide +kernel)
  -- the names are in order, and the numbers are the same
  have hsources : (discover twiceFiles (twiceRoot / usersDirectory)).result = .ok twiceSources :=
    discover_of_forall₂ hstudents
      (.cons (discoverStudent_of_ascending hnames hfound (by decide)) .nil)
  have hload : (twiceSources.mapM fun source : Source => source.load twiceFiles) =
      .ok [⟨"bob", 1, #[8]⟩, ⟨"bob", 1, #[7]⟩] := toOption_eq_some_iff.1 (by decide +kernel)
  exact ⟨_, Corpus.load_of_discover (by decide +kernel) (by decide +kernel) (by decide +kernel) rfl
    hsources hload, rfl⟩

theorem loadedAs_twiceFiles (name : String) (h : name ∈ ["1", "01"]) :
    LoadedAs twiceFiles twiceRoot twiceSettings ⟨"bob", 1, "s__c__hw"⟩
      (twiceRoot / usersDirectory / "bob" / name / fingerprintFile) := by
  have hholds : HoldsVersion twiceFiles (twiceRoot / usersDirectory) "bob" name 1 := by
    revert name
    unfold HoldsVersion
    decide +kernel
  exact ⟨_, .current, name, hholds, rfl⟩

/-- Two files of a gradeable that is loaded may be those of one peer. -/
theorem exists_peer_of_two_files :
    ∃ corpus, (Corpus.load twiceFiles twiceRoot twiceSettings).result = .ok corpus ∧
      ∃ peer a b, LoadedAs twiceFiles twiceRoot twiceSettings peer a ∧
        LoadedAs twiceFiles twiceRoot twiceSettings peer b ∧ a ≠ b := by
  obtain ⟨corpus, hload, -⟩ := exists_load_twiceFiles
  exact ⟨corpus, hload, _, _, _, loadedAs_twiceFiles "1" (by decide),
    loadedAs_twiceFiles "01" (by decide), by decide⟩

theorem peers_identify_iff_twice :
    ∃ corpus, (Corpus.load twiceFiles twiceRoot twiceSettings).result = .ok corpus ∧
      (∃ i ∈ corpus.reference.current :: corpus.reference.others,
        ⟨⟨"bob", 1, "s__c__hw"⟩, 1⟩ ∈ i.locations 7) ∧
      (∃ i ∈ corpus.reference.current :: corpus.reference.others,
        ⟨⟨"bob", 1, "s__c__hw"⟩, 1⟩ ∈ i.locations 8) ∧
      ¬Unambiguous twiceFiles twiceRoot twiceSettings := by
  obtain ⟨corpus, hload, -⟩ := exists_load_twiceFiles
  obtain ⟨hplaces, -, hidentify⟩ := peers_identify_iff hload
  have hseven : FileHasAt twiceFiles (twiceRoot / usersDirectory / "bob" / "1" / fingerprintFile)
      7 1 := ⟨[7], toOption_eq_some_iff.1 (by decide +kernel), by decide, rfl⟩
  have height : FileHasAt twiceFiles (twiceRoot / usersDirectory / "bob" / "01" / fingerprintFile)
      8 1 := ⟨[8], toOption_eq_some_iff.1 (by decide +kernel), by decide, rfl⟩
  refine ⟨corpus, hload, (hplaces 7 _).2 ⟨_, loadedAs_twiceFiles "1" (by decide), hseven⟩,
    (hplaces 8 _).2 ⟨_, loadedAs_twiceFiles "01" (by decide), height⟩, fun hone => ?_⟩
  have hsame := hidentify.2 hone _ _ _ (loadedAs_twiceFiles "1" (by decide))
    (loadedAs_twiceFiles "01" (by decide))
  exact absurd hsame (by decide)

end Resemblance
