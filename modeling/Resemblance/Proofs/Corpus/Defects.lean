import Resemblance.Proofs.Corpus.Listing
import Resemblance.Proofs.Fingerprint
import Resemblance.Proofs.Index.Grouped

/-!
# The first defect of a gradeable

A gradeable may be wrong in many places at once, and loading it reports one of them.  Which one it
is depends on the order in which things are read: the root, the users, the provided code and then
earlier gradeables; for each set of submissions first the names of all versions and then the files;
and each file from its first word.

## What is here

* `FileSound`, `FileDefect` — a fingerprint file and what is wrong with it.
* `SubmissionsSound`, `SubmissionsDefect` — the submissions below a directory.
* `GradeableSound`, `FirstDefect` — everything that is loaded.  A part counts only if all that come
  before it are sound, and the provided code only if it is asked for.
* `HoldsTokens`, `Corpus.Holds` — what is loaded from a gradeable that is sound.
* `Corpus.load_first_defect` — all of it, for any tree, root and settings.
-/

set_option autoImplicit false
namespace Resemblance

open Resemblance.Tree
open Resemblance.Text
open Resemblance.Text.Numeral (Denotes)

/-! ## Files -/

/-- Whether a file holds bytes that encode no text. -/
def NotText (t : Tree) (path : Path) : Prop :=
  ∃ content, t.at? path = some (.file content) ∧ ∀ text : String, content ≠ text.toUTF8

/-- Whether a file holds a text. -/
def HoldsText (t : Tree) (path : Path) (text : String) : Prop :=
  t.at? path = some (.file text.toUTF8)

/-- Whether a file holds a text all words of which write fingerprints. -/
def FileSound (t : Tree) (path : Path) : Prop :=
  ∃ text, HoldsText t path text ∧ ∀ w, IsRun text.toList w → Fingerprint.IsWord w

/-- What is wrong with a file: it holds no text, or a word of it is the first that writes no
fingerprint. -/
inductive FileDefect (t : Tree) (path : Path) : Fault → Prop
  | notText (h : NotText t path) : FileDefect t path (.file .notText)
  | word {text : String} {before after : List (List Char)} {w : List Char}
      (htext : HoldsText t path text) (hwords : Spaced (before ++ w :: after) text.toList)
      (hbefore : ∀ v ∈ before, Fingerprint.IsWord v) (hw : ¬Fingerprint.IsWord w) :
      FileDefect t path (.inputIn path.text (.badFingerprint (String.ofList w)))

/-- Whether a file holds a text with these fingerprints, one in each word. -/
def HoldsFingerprints (t : Tree) (path : Path) (fs : List Fingerprint) : Prop :=
  ∃ text ws, HoldsText t path text ∧ Spaced ws text.toList ∧
    List.Forall₂ (fun w f => Denotes 16 w f.toNat) ws fs

section File

variable {t : Tree} {path : Path}

theorem readText_of_at? {content : ByteArray} (h : t.at? path = some (.file content)) :
    t.readText path = match String.fromUTF8? content with
      | some text => .ok text
      | none => .error .notText := by
  rw [at?] at h
  rw [readText]
  cases hlocate : t.locate path with
  | error e => exact absurd h (by simp [hlocate])
  | ok place =>
    rw [hlocate] at h
    cases htext : String.fromUTF8? content with
    | none => simp only [bind, Except.bind, h, htext]
    | some text => simp only [bind, Except.bind, h, htext]

theorem readText_of_holdsText {text : String} (h : HoldsText t path text) :
    t.readText path = .ok text := by
  rw [readText_of_at? h, fromUTF8?_eq_some_iff.2 rfl]

theorem HoldsText.eq {text text' : String} (h : HoldsText t path text)
    (h' : HoldsText t path text') : text = text' :=
  Except.ok.inj ((readText_of_holdsText h).symm.trans (readText_of_holdsText h'))

theorem HoldsText.not_notText {text : String} (h : HoldsText t path text) : ¬NotText t path := by
  rintro ⟨content, hat, hne⟩
  obtain rfl := Node.file.inj (Option.some_inj.1 (h.symm.trans hat))
  exact hne text rfl

/-- A file holds a text, or none. -/
theorem holdsText_or_notText (h : t.isFile path = true) :
    (∃ text, HoldsText t path text) ∨ NotText t path ∧ t.readText path = .error .notText := by
  obtain ⟨content, hat⟩ : ∃ content, t.at? path = some (.file content) := by
    rw [isFile] at h
    split at h
    · exact ⟨_, ‹_›⟩
    · exact absurd h Bool.false_ne_true
  cases htext : String.fromUTF8? content with
  | some text => exact .inl ⟨text, by rw [HoldsText, hat, fromUTF8?_eq_some_iff.1 htext]⟩
  | none =>
    refine .inr ⟨⟨content, hat, fun text heq => ?_⟩, by rw [readText_of_at? hat, htext]⟩
    exact absurd (fromUTF8?_eq_some_iff.2 heq) (by simp [htext])

/-- **Reading a file fails with its defect.** -/
theorem diagnosis_readFingerprints (h : t.isFile path = true) :
    Diagnosis (readFingerprints t path) (FileSound t path) (FileDefect t path) := by
  rcases holdsText_or_notText h with ⟨text, htext⟩ | ⟨hnot, hread⟩
  · have hread := readText_of_holdsText htext
    refine ⟨?_, fun fault => ?_⟩
    · simp only [readFingerprints_eq_ok_iff hread, Fingerprint.ofText,
        Fingerprint.exists_ofWords_iff, mem_words_iff]
      refine ⟨?_, ?_⟩
      · exact fun hall => ⟨text, htext, hall⟩
      · rintro ⟨text', htext', hall⟩
        rwa [htext.eq htext']
    · simp only [readFingerprints_eq_error_iff hread, Fingerprint.ofText,
        Fingerprint.ofWords_eq_error_iff]
      refine ⟨?_, fun hdefect => ?_⟩
      · rintro ⟨_, ⟨before, w, after, hws, hbefore, hw, rfl⟩, rfl⟩
        exact .word htext (spaced_iff.2 hws.symm) hbefore hw
      · cases hdefect with
        | notText hnot => exact absurd hnot htext.not_notText
        | word htext' hwords hbefore hw =>
          obtain rfl := htext.eq htext'
          exact ⟨_, ⟨_, _, _, (spaced_iff.1 hwords).symm, hbefore, hw, rfl⟩, rfl⟩
  · have herror : readFingerprints t path = .error (.file .notText) := by
      rw [readFingerprints, hread]
    rw [herror]
    refine (Diagnosis.error _).congr ?_ fun fault => ?_
    · rw [false_iff]
      rintro ⟨text, htext, -⟩
      exact htext.not_notText hnot
    · refine ⟨?_, fun hdefect => ?_⟩
      · rintro rfl
        exact .notText hnot
      · cases hdefect with
        | notText _ => rfl
        | word htext _ _ _ => exact absurd hnot htext.not_notText

/-- What is read is what the file holds. -/
theorem holdsFingerprints_of_read (h : t.isFile path = true) {fs : List Fingerprint}
    (hread : readFingerprints t path = .ok fs) : HoldsFingerprints t path fs := by
  obtain ⟨text, htext, -⟩ := (diagnosis_readFingerprints h).exists_ok_iff.1 ⟨fs, hread⟩
  rw [readFingerprints_eq_ok_iff (readText_of_holdsText htext), Fingerprint.ofText,
    Fingerprint.ofWords_eq_ok_iff] at hread
  exact ⟨text, _, htext, spaced_words _, hread⟩

end File

/-! ## Submissions -/

/-- Whether all directories at the level of versions are named for versions, and all fingerprint
files of these versions are sound. -/
structure SubmissionsSound (t : Tree) (directory : Path) : Prop where
  names : ∀ e, ¬Misnamed t directory e
  files : ∀ source : Source, source.IsBelow t directory → FileSound t source.file

/-- What is wrong with submissions: a directory is the first that is named for no version, or all
names are right and the file of a source has a defect, while those of all sources before it are
sound. -/
inductive SubmissionsDefect (t : Tree) (directory : Path) : Fault → Prop
  | name {e : String × String} (h : FirstMisnamed t directory e) :
      SubmissionsDefect t directory (.inputIn (directory / e.1).text (.badVersion e.2))
  | file {source : Source} {fault : Fault} (hnames : ∀ e, ¬Misnamed t directory e)
      (hsource : source.IsBelow t directory)
      (hbefore : ∀ other : Source, other.IsBelow t directory → other.key < source.key →
        FileSound t other.file)
      (h : FileDefect t source.file fault) : SubmissionsDefect t directory fault

section Submissions

variable {t : Tree} {directory : Path}

/-- The files of submissions are read one after another. -/
theorem diagnosis_loadIndex {sources : List Source} (label : String)
    (h : (discover t directory).result = .ok sources) :
    Diagnosis (loadIndex t label sources)
      (∀ source : Source, source.IsBelow t directory → FileSound t source.file) fun fault =>
        ∃ source : Source, source.IsBelow t directory ∧
          (∀ other : Source, other.IsBelow t directory → other.key < source.key →
            FileSound t other.file) ∧ FileDefect t source.file fault :=
  (Diagnosis.mapM (pairwise_key_discover h) (fun _ => mem_discover_iff h)
    fun _ hsource => (diagnosis_readFingerprints hsource.isFile).map _).map _

theorem submissionsSound_iff : SubmissionsSound t directory ↔ (∀ e, ¬Misnamed t directory e) ∧
    ∀ source : Source, source.IsBelow t directory → FileSound t source.file :=
  ⟨fun h => ⟨h.names, h.files⟩, fun h => ⟨h.1, h.2⟩⟩

theorem submissionsDefect_iff {fault : Fault} : SubmissionsDefect t directory fault ↔
    (∃ e, FirstMisnamed t directory e ∧
      fault = .inputIn (directory / e.1).text (.badVersion e.2)) ∨
    (∀ e, ¬Misnamed t directory e) ∧ ∃ source : Source, source.IsBelow t directory ∧
      (∀ other : Source, other.IsBelow t directory → other.key < source.key →
        FileSound t other.file) ∧ FileDefect t source.file fault := by
  refine ⟨fun h => ?_, ?_⟩
  · cases h with
    | name h => exact .inl ⟨_, h, rfl⟩
    | file hnames hsource hbefore h => exact .inr ⟨hnames, _, hsource, hbefore, h⟩
  · rintro (⟨e, h, rfl⟩ | ⟨hnames, source, hsource, hbefore, h⟩)
    · exact .name h
    · exact .file hnames hsource hbefore h

/-- **Loading submissions fails with their first defect.** -/
theorem diagnosis_submissions (label : String) (h : t.isDirectory directory = true) :
    Diagnosis ((discover t directory).result >>= loadIndex t label) (SubmissionsSound t directory)
      (SubmissionsDefect t directory) :=
  ((diagnosis_discover h).bind fun _ hsources => diagnosis_loadIndex label hsources).congr
    submissionsSound_iff.symm fun _ => submissionsDefect_iff.symm

end Submissions

/-! ## Gradeables -/

/-- Where the fingerprints of the provided code stand. -/
def providedCodeFile (root : Path) : Path :=
  root / providedCodeDirectory / fingerprintFile

/-- Where the submissions of an earlier gradeable stand. -/
def earlierDirectory (root : Path) (name : String) : Path :=
  root / otherGradeablesDirectory / name

/-- Whether there is provided code to be read. -/
structure UsesProvidedCode (t : Tree) (root : Path) (settings : Settings.Gradeable) : Prop where
  enabled : settings.providedCodeEnabled = true
  isFile : t.isFile (providedCodeFile root) = true

/-- Whether the directories that every gradeable has are there. -/
structure HasUsers (t : Tree) (root : Path) : Prop where
  isDirectory_root : t.isDirectory root = true
  isDirectory_users : t.isDirectory (root / usersDirectory) = true

/-- Whether nothing is wrong with a gradeable. -/
structure GradeableSound (t : Tree) (root : Path) (settings : Settings.Gradeable) : Prop where
  hasUsers : HasUsers t root
  current : SubmissionsSound t (root / usersDirectory)
  provided : UsesProvidedCode t root settings → FileSound t (providedCodeFile root)
  earlier : ∀ name, t.isDirectory (earlierDirectory root name) = true →
    SubmissionsSound t (earlierDirectory root name)

/-- What is wrong first with a gradeable: the root, the directory of users, the submissions there,
the provided code, or those of an earlier gradeable, where these come by name. -/
inductive FirstDefect (t : Tree) (root : Path) (settings : Settings.Gradeable) : Fault → Prop
  | root (hroot : t.isDirectory root = false) :
      FirstDefect t root settings (.settings (.noGradeableDirectory root.text))
  | users (hroot : t.isDirectory root = true)
      (husers : t.isDirectory (root / usersDirectory) = false) :
      FirstDefect t root settings (.settings (.noUsersDirectory (root / usersDirectory).text))
  | current {fault : Fault} (hthere : HasUsers t root)
      (h : SubmissionsDefect t (root / usersDirectory) fault) : FirstDefect t root settings fault
  | provided {fault : Fault} (hthere : HasUsers t root)
      (hcurrent : SubmissionsSound t (root / usersDirectory))
      (huses : UsesProvidedCode t root settings)
      (h : FileDefect t (providedCodeFile root) fault) : FirstDefect t root settings fault
  | earlier {name : String} {fault : Fault} (hthere : HasUsers t root)
      (hcurrent : SubmissionsSound t (root / usersDirectory))
      (hprovided : UsesProvidedCode t root settings → FileSound t (providedCodeFile root))
      (hname : t.isDirectory (earlierDirectory root name) = true)
      (hbefore : ∀ name', t.isDirectory (earlierDirectory root name') = true → name' < name →
        SubmissionsSound t (earlierDirectory root name'))
      (h : SubmissionsDefect t (earlierDirectory root name) fault) :
      FirstDefect t root settings fault

section Gradeable

variable {t : Tree} {root : Path} {settings : Settings.Gradeable}

/-- The provided code that settings ask for. -/
def loadProvided (t : Tree) (root : Path) (settings : Settings.Gradeable) :
    Except Fault (Option ProvidedCode) :=
  if settings.providedCodeEnabled then loadProvidedCode t root else .ok none

theorem loadProvided_of_uses (h : UsesProvidedCode t root settings) :
    loadProvided t root settings =
      (readFingerprints t (providedCodeFile root)).map (some ∘ ProvidedCode.ofFingerprints) := by
  rw [loadProvided, if_pos h.enabled, loadProvidedCode]
  exact if_pos h.isFile

theorem loadProvided_of_not_uses (h : ¬UsesProvidedCode t root settings) :
    loadProvided t root settings = .ok none := by
  rw [loadProvided]
  split
  · rename_i henabled
    exact if_neg fun hfile => h ⟨henabled, hfile⟩
  · rfl

/-- **Loading provided code fails with its defect**, if it is asked for. -/
theorem diagnosis_loadProvided (t : Tree) (root : Path) (settings : Settings.Gradeable) :
    Diagnosis (loadProvided t root settings)
      (UsesProvidedCode t root settings → FileSound t (providedCodeFile root)) fun fault =>
        UsesProvidedCode t root settings ∧ FileDefect t (providedCodeFile root) fault := by
  by_cases huses : UsesProvidedCode t root settings
  · rw [loadProvided_of_uses huses]
    refine ((diagnosis_readFingerprints huses.isFile).map _).congr ?_ fun fault => ?_
    · exact ⟨fun h _ => h, fun h => h huses⟩
    · exact ⟨fun h => ⟨huses, h⟩, fun h => h.2⟩
  · rw [loadProvided_of_not_uses huses]
    exact (Diagnosis.ok none).congr (iff_of_true trivial fun h => absurd h huses)
      fun fault => iff_of_false id fun h => huses h.1

theorem result_loadOtherGradeable (name : String) :
    (loadOtherGradeable t (root / otherGradeablesDirectory) name).result =
      (discover t (earlierDirectory root name)).result >>= loadIndex t name :=
  Logged.result_bind _ _

theorem result_loadOtherGradeables (h : t.isDirectory (root / otherGradeablesDirectory) = true) :
    (loadOtherGradeables t root).result =
      (t.listed (root / otherGradeablesDirectory)).mapM fun name =>
        (discover t (earlierDirectory root name)).result >>= loadIndex t name := by
  have heach : (loadOtherGradeables t root).result =
      (Logged.each (loadOtherGradeable t (root / otherGradeablesDirectory))
        (t.listed (root / otherGradeablesDirectory))).result := by
    rw [loadOtherGradeables, if_pos h, Logged.result_bind, listDirectories_eq_done h]
    rfl
  rw [heach, Logged.result_each]
  simp only [result_loadOtherGradeable]

theorem loadOtherGradeables_of_not (h : ¬t.isDirectory (root / otherGradeablesDirectory) = true) :
    (loadOtherGradeables t root).result = .ok [] := by
  rw [loadOtherGradeables, if_neg h]
  rfl

/-- Earlier gradeables are there only below their directory. -/
theorem isDirectory_of_earlier {name : String}
    (h : t.isDirectory (earlierDirectory root name) = true) :
    t.isDirectory (root / otherGradeablesDirectory) = true :=
  isDirectory_of_isDirectory_child (child_ne_empty _ _) h

/-- **Loading earlier gradeables fails with the first defect of the first one that has any.** -/
theorem diagnosis_loadOtherGradeables (t : Tree) (root : Path) :
    Diagnosis (loadOtherGradeables t root).result
      (∀ name, t.isDirectory (earlierDirectory root name) = true →
        SubmissionsSound t (earlierDirectory root name)) fun fault =>
        ∃ name, t.isDirectory (earlierDirectory root name) = true ∧
          (∀ name', t.isDirectory (earlierDirectory root name') = true → name' < name →
            SubmissionsSound t (earlierDirectory root name')) ∧
          SubmissionsDefect t (earlierDirectory root name) fault := by
  by_cases h : t.isDirectory (root / otherGradeablesDirectory) = true
  · have hascending : (t.listed (root / otherGradeablesDirectory)).Pairwise
        fun a b => id a < id b := pairwise_listed h
    rw [result_loadOtherGradeables h]
    exact Diagnosis.mapM hascending (mem_listed_iff h)
      fun name hname => diagnosis_submissions name hname
  · rw [loadOtherGradeables_of_not h]
    refine (Diagnosis.ok []).congr ?_ fun fault => ?_
    · exact iff_of_true trivial fun name hname => absurd (isDirectory_of_earlier hname) h
    · refine iff_of_false id ?_
      rintro ⟨name, hname, -⟩
      exact h (isDirectory_of_earlier hname)

/-! ## Loading -/

/-- The fault that names the directory that is missing. -/
def missingDirectory (t : Tree) (root : Path) : Fault :=
  if t.isDirectory root then .settings (.noUsersDirectory (root / usersDirectory).text)
  else .settings (.noGradeableDirectory root.text)

theorem firstDefect_iff_of_not_hasUsers (h : ¬HasUsers t root) {fault : Fault} :
    FirstDefect t root settings fault ↔ fault = missingDirectory t root := by
  refine ⟨fun hdefect => ?_, ?_⟩
  · cases hdefect with
    | root hroot => rw [missingDirectory, hroot, if_neg Bool.false_ne_true]
    | users hroot _ => rw [missingDirectory, hroot, if_pos rfl]
    | current hthere _ => exact absurd hthere h
    | provided hthere _ _ _ => exact absurd hthere h
    | earlier hthere _ _ _ _ _ => exact absurd hthere h
  · rintro rfl
    rw [missingDirectory]
    split
    · rename_i hroot
      exact .users hroot (Bool.eq_false_iff.2 fun husers => h ⟨hroot, husers⟩)
    · rename_i hroot
      exact .root (Bool.eq_false_iff.2 hroot)

theorem firstDefect_iff_of_hasUsers (h : HasUsers t root) {fault : Fault} :
    FirstDefect t root settings fault ↔ SubmissionsDefect t (root / usersDirectory) fault ∨
      SubmissionsSound t (root / usersDirectory) ∧
        (UsesProvidedCode t root settings ∧ FileDefect t (providedCodeFile root) fault ∨
        (UsesProvidedCode t root settings → FileSound t (providedCodeFile root)) ∧
          ∃ name, t.isDirectory (earlierDirectory root name) = true ∧
            (∀ name', t.isDirectory (earlierDirectory root name') = true → name' < name →
              SubmissionsSound t (earlierDirectory root name')) ∧
            SubmissionsDefect t (earlierDirectory root name) fault) := by
  refine ⟨fun hdefect => ?_, ?_⟩
  · cases hdefect with
    | root hroot => exact absurd (hroot.symm.trans h.isDirectory_root) Bool.false_ne_true
    | users _ husers => exact absurd (husers.symm.trans h.isDirectory_users) Bool.false_ne_true
    | current _ h => exact .inl h
    | provided _ hcurrent huses h => exact .inr ⟨hcurrent, .inl ⟨huses, h⟩⟩
    | earlier _ hcurrent hprovided hname hbefore h =>
      exact .inr ⟨hcurrent, .inr ⟨hprovided, _, hname, hbefore, h⟩⟩
  · rintro (hdefect | ⟨hcurrent, ⟨huses, hdefect⟩ | ⟨hprovided, name, hname, hbefore, hdefect⟩⟩)
    · exact .current h hdefect
    · exact .provided h hcurrent huses hdefect
    · exact .earlier h hcurrent hprovided hname hbefore hdefect

namespace Corpus

theorem load_of_not_hasUsers (h : ¬HasUsers t root) :
    (load t root settings).result = .error (missingDirectory t root) := by
  rw [load, missingDirectory]
  split
  · rename_i hroot
    rw [if_neg (by simpa using hroot)]
    rfl
  · rename_i hroot
    have hthere : t.isDirectory root = true := by simpa using hroot
    have husers : t.isDirectory (root / usersDirectory) = false :=
      Bool.eq_false_iff.2 fun husers => h ⟨hthere, husers⟩
    rw [if_pos hthere, if_pos (by rw [husers]; rfl)]
    rfl

/-- The steps of loading, once the directories are there. -/
theorem result_load (h : HasUsers t root) :
    (load t root settings).result =
      (discover t (root / usersDirectory)).result >>= fun sources =>
        loadIndex t settings.label sources >>= fun current =>
          loadProvided t root settings >>= fun provided =>
            (loadOtherGradeables t root).result.map fun others =>
              ⟨⟨current, provided, others, settings.threshold⟩, sources⟩ := by
  rw [load, if_neg (by rw [h.isDirectory_root]; decide),
    if_neg (by rw [h.isDirectory_users]; decide), Logged.result_bind]
  refine congrArg ((discover t (root / usersDirectory)).result >>= ·) (funext fun sources => ?_)
  rw [Logged.result_bind, Logged.result_ofExcept]
  refine congrArg (loadIndex t settings.label sources >>= ·) (funext fun current => ?_)
  have hrest : ∀ provided, (loadOtherGradeables t root >>= fun others =>
      (pure ⟨⟨current, provided, others, settings.threshold⟩, sources⟩ : Logged Corpus)).result =
        (loadOtherGradeables t root).result.map fun others =>
          ⟨⟨current, provided, others, settings.threshold⟩, sources⟩ := by
    intro provided
    rw [Logged.result_bind]
    cases (loadOtherGradeables t root).result <;> rfl
  rw [loadProvided]
  split
  · rw [Logged.result_bind, Logged.result_ofExcept]
    exact congrArg (loadProvidedCode t root >>= ·) (funext hrest)
  · rw [Logged.result_bind]
    exact hrest none

/-- **Loading fails with the first defect.** -/
theorem diagnosis_load (t : Tree) (root : Path) (settings : Settings.Gradeable) :
    Diagnosis (load t root settings).result (GradeableSound t root settings)
      (FirstDefect t root settings) := by
  by_cases h : HasUsers t root
  · have hsteps := (diagnosis_discover h.isDirectory_users).bind fun sources hsources =>
      (diagnosis_loadIndex settings.label hsources).bind fun current _ =>
        (diagnosis_loadProvided t root settings).bind fun provided _ =>
          (diagnosis_loadOtherGradeables t root).map fun others =>
            (⟨⟨current, provided, others, settings.threshold⟩, sources⟩ : Corpus)
    rw [result_load h]
    refine hsteps.congr ?_ fun fault => ?_
    · refine ⟨?_, fun hsound => ?_⟩
      · rintro ⟨hnames, hfiles, hprovided, hearlier⟩
        exact ⟨h, ⟨hnames, hfiles⟩, hprovided, hearlier⟩
      · exact ⟨hsound.current.names, hsound.current.files, hsound.provided, hsound.earlier⟩
    · rw [firstDefect_iff_of_hasUsers h, submissionsDefect_iff, submissionsSound_iff, or_assoc,
        and_assoc, ← and_or_left]
  · rw [load_of_not_hasUsers h]
    refine (Diagnosis.error _).congr ?_ fun fault => (firstDefect_iff_of_not_hasUsers h).symm
    exact iff_of_false id fun hsound => h hsound.hasUsers

end Corpus

end Gradeable

/-! ## What is loaded -/

/-- The words of the file of a source as sightings, counted from one. -/
def Source.tokens (source : Source) (fs : List Fingerprint) : List Sighting :=
  (Position.numbered fs).map fun word => ⟨word.1, source.student, ⟨source.version, word.2⟩⟩

/-- Whether an index holds sightings and nothing else: it knows their fingerprints, and for each of
them the students who have it, with the places of each. -/
structure Index.Holds (i : Index) (seen : List Sighting) : Prop where
  mem_entries_iff : ∀ f, f ∈ i.entries ↔ ∃ x ∈ seen, x.fingerprint = f
  groupedBy : ∀ f, GroupedBy seen f (i.bearers f).listed

/-- Whether an index holds the words of all fingerprint files below a directory, and nothing
else. -/
def HoldsTokens (t : Tree) (directory : Path) (label : String) (i : Index) : Prop :=
  ∃ (sources : List Source) (contents : List (List Fingerprint)),
    (sources.Pairwise fun a b => a.key < b.key) ∧
    (∀ source, source ∈ sources ↔ source.IsBelow t directory) ∧
    List.Forall₂ (fun source fs => HoldsFingerprints t source.file fs) sources contents ∧
    i.label = label ∧ i.Holds ((sources.zip contents).flatMap fun e => e.1.tokens e.2)

/-- Whether a corpus holds what stands in a gradeable. -/
structure Corpus.Holds (corpus : Corpus) (t : Tree) (root : Path) (settings : Settings.Gradeable) :
    Prop where
  ascending : corpus.sources.Pairwise fun a b => a.key < b.key
  mem_sources_iff : ∀ source,
    source ∈ corpus.sources ↔ source.IsBelow t (root / usersDirectory)
  current : HoldsTokens t (root / usersDirectory) settings.label corpus.reference.current
  provided : UsesProvidedCode t root settings →
    ∃ code fs, corpus.reference.provided = some code ∧
      HoldsFingerprints t (providedCodeFile root) fs ∧ ∀ f, f ∈ code ↔ f ∈ fs
  provided_eq_none : ¬UsesProvidedCode t root settings → corpus.reference.provided = none
  others : ∃ names : List String, names.Pairwise (· < ·) ∧
    (∀ name, name ∈ names ↔ t.isDirectory (earlierDirectory root name) = true) ∧
    List.Forall₂ (fun name i => HoldsTokens t (earlierDirectory root name) name i) names
      corpus.reference.others
  threshold : corpus.reference.threshold = settings.threshold

section Contents

variable {t : Tree} {root directory : Path} {settings : Settings.Gradeable}

theorem holds_ofSightings (label : String) (seen : List Sighting) :
    (Index.ofSightings label seen).Holds seen where
  mem_entries_iff f := by
    rw [Index.mem_entries_ofSightings, List.mem_map]
  groupedBy := Index.groupedBy_listed label seen

/-- A submission has what the file of its source holds. -/
theorem holdsFingerprints_of_load {source : Source} {submission : Submission}
    (h : t.isFile source.file = true) (hload : source.load t = .ok submission) :
    HoldsFingerprints t source.file submission.fingerprints.toList ∧
      submission.sightings = source.tokens submission.fingerprints.toList := by
  obtain ⟨fs, hread, rfl⟩ := map_eq_ok_iff.1 hload
  exact ⟨holdsFingerprints_of_read h hread, rfl⟩

/-- **An index that is loaded holds the words of the files.** -/
theorem holdsTokens_of_loadIndex {label : String} {sources : List Source} {i : Index}
    (hsources : (discover t directory).result = .ok sources)
    (hindex : loadIndex t label sources = .ok i) : HoldsTokens t directory label i := by
  have hmem : ∀ source, source ∈ sources ↔ source.IsBelow t directory :=
    fun _ => mem_discover_iff hsources
  obtain ⟨submissions, hloaded, rfl⟩ := map_eq_ok_iff.1 hindex
  have hloads := mapM_eq_ok_iff.1 hloaded
  refine ⟨sources, submissions.map fun s => s.fingerprints.toList,
    pairwise_key_discover hsources, hmem, ?_, Index.label_ofSightings _ _, ?_⟩
  · rw [List.forall₂_map_right_iff]
    exact forall₂_imp_of_mem hloads fun source hsource _ _ hload =>
      (holdsFingerprints_of_load ((hmem source).1 hsource).isFile hload).1
  · have hseen : (sources.zip (submissions.map fun s => s.fingerprints.toList)).flatMap
        (fun e => e.1.tokens e.2) = submissions.flatMap Submission.sightings := by
      have hall := forall₂_imp_of_mem hloads fun source hsource _ _ hload =>
        (holdsFingerprints_of_load ((hmem source).1 hsource).isFile hload).2
      clear hloads hloaded hindex hsources hmem
      induction hall with
      | nil => rfl
      | cons hload _ ih =>
        rw [List.map_cons, List.zip_cons_cons, List.flatMap_cons, List.flatMap_cons, hload, ih]
    rw [hseen]
    exact holds_ofSightings label _

theorem holds_loadProvided {provided : Option ProvidedCode}
    (h : loadProvided t root settings = .ok provided) :
    (UsesProvidedCode t root settings →
      ∃ code fs, provided = some code ∧
        HoldsFingerprints t (providedCodeFile root) fs ∧ ∀ f, f ∈ code ↔ f ∈ fs) ∧
    (¬UsesProvidedCode t root settings → provided = none) := by
  refine ⟨fun huses => ?_, fun huses => ?_⟩
  · rw [loadProvided_of_uses huses, map_eq_ok_iff] at h
    obtain ⟨fs, hread, rfl⟩ := h
    exact ⟨_, fs, rfl, holdsFingerprints_of_read huses.isFile hread, fun f => by
      simp [ProvidedCode.ofFingerprints]⟩
  · rw [loadProvided_of_not_uses huses] at h
    exact (Except.ok.inj h).symm

theorem holdsTokens_of_loaded {label : String} {i : Index}
    (h : (discover t directory).result >>= loadIndex t label = .ok i) :
    HoldsTokens t directory label i := by
  obtain ⟨sources, hsources, hindex⟩ := bind_eq_ok_iff.1 h
  exact holdsTokens_of_loadIndex hsources hindex

/-- **There is one index for each earlier gradeable, by name.** -/
theorem holds_loadOtherGradeables {others : List Index}
    (h : (loadOtherGradeables t root).result = .ok others) :
    ∃ names : List String, names.Pairwise (· < ·) ∧
      (∀ name, name ∈ names ↔ t.isDirectory (earlierDirectory root name) = true) ∧
      List.Forall₂ (fun name i => HoldsTokens t (earlierDirectory root name) name i) names
        others := by
  by_cases hthere : t.isDirectory (root / otherGradeablesDirectory) = true
  · rw [result_loadOtherGradeables hthere, mapM_eq_ok_iff] at h
    exact ⟨_, pairwise_listed hthere, mem_listed_iff hthere,
      h.imp fun _ _ => holdsTokens_of_loaded⟩
  · rw [loadOtherGradeables_of_not hthere] at h
    obtain rfl := Except.ok.inj h
    refine ⟨[], .nil, fun name => ?_, .nil⟩
    exact iff_of_false List.not_mem_nil fun hname => hthere (isDirectory_of_earlier hname)

/-- **A corpus that is loaded holds what stands in the gradeable.** -/
theorem Corpus.holds_of_load {corpus : Corpus}
    (h : (load t root settings).result = .ok corpus) : corpus.Holds t root settings := by
  have hsound := (diagnosis_load t root settings).exists_ok_iff.1 ⟨corpus, h⟩
  rw [result_load hsound.hasUsers] at h
  obtain ⟨sources, hsources, h⟩ := bind_eq_ok_iff.1 h
  obtain ⟨current, hcurrent, h⟩ := bind_eq_ok_iff.1 h
  obtain ⟨provided, hprovided, h⟩ := bind_eq_ok_iff.1 h
  obtain ⟨others, hothers, rfl⟩ := map_eq_ok_iff.1 h
  obtain ⟨hcode, hnone⟩ := holds_loadProvided hprovided
  exact {
    ascending := pairwise_key_discover hsources
    mem_sources_iff := fun _ => mem_discover_iff hsources
    current := holdsTokens_of_loadIndex hsources hcurrent
    provided := hcode
    provided_eq_none := hnone
    others := holds_loadOtherGradeables hothers
    threshold := rfl }

/-- **Loading a gradeable reports its first defect.**  It succeeds exactly if the directories are
there, all directories at the level of versions are named for versions, and all fingerprint files
that are to be read hold fingerprints only.  Otherwise the fault is the first thing that is wrong:
with the root, the users, their versions, their files, the provided code, and then with the versions
and the files of earlier gradeables.  What is loaded holds the words of all files, each at its
number in the file, and nothing else. -/
theorem Corpus.load_first_defect (t : Tree) (root : Path) (settings : Settings.Gradeable) :
    ((∃ corpus, (Corpus.load t root settings).result = .ok corpus) ↔
      GradeableSound t root settings) ∧
    (∀ fault, (Corpus.load t root settings).result = .error fault ↔
      FirstDefect t root settings fault) ∧
    ∀ corpus, (Corpus.load t root settings).result = .ok corpus → corpus.Holds t root settings :=
  ⟨(diagnosis_load t root settings).exists_ok_iff, (diagnosis_load t root settings).eq_error_iff,
    fun _ => holds_of_load⟩

end Contents

/-- A gradeable with a word that is no fingerprint, a directory named for no version behind it, and
provided code that is no text. -/
def defectiveFiles : Tree where
  start := []
  nodes := .ofList [
    (["g"], .directory), (["users", "g"], .directory), (["bob", "users", "g"], .directory),
    (["1", "bob", "users", "g"], .directory),
    (["hashes.txt", "1", "bob", "users", "g"], .file "7 zz".toUTF8),
    (["latest", "bob", "users", "g"], .directory), (["provided_code", "g"], .directory),
    (["hashes.txt", "provided_code", "g"], .file ⟨#[255]⟩)] compare

def defectiveRoot : Path := .given "g"

def defectiveSettings : Settings.Gradeable :=
  { semester := "s", course := "c", gradeable := "hw" }

theorem load_first_defect_misnamed :
    FileDefect defectiveFiles (providedCodeFile defectiveRoot) (.file .notText) ∧
    (Corpus.load defectiveFiles defectiveRoot defectiveSettings).result =
      .error (.inputIn (defectiveRoot / usersDirectory / "bob").text (.badVersion "latest")) := by
  have husers : defectiveFiles.isDirectory (defectiveRoot / usersDirectory) = true := by
    decide +kernel
  have hversions : versionDirectories defectiveFiles (defectiveRoot / usersDirectory) =
      [("bob", "1"), ("bob", "latest")] := by decide +kernel
  have hmem := mem_versionDirectories_iff husers
  rw [hversions] at hmem
  have hmisnamed : ∀ e, Misnamed defectiveFiles (defectiveRoot / usersDirectory) e ↔
      e = ("bob", "latest") := by
    intro e
    refine ⟨fun he => ?_, ?_⟩
    · have hname := he.ofName?
      rcases List.mem_pair.1 ((hmem e).2 he.isVersionDirectory) with rfl | rfl
      · exact absurd hname (by decide)
      · rfl
    · rintro rfl
      exact ⟨(hmem _).1 (by decide), by decide⟩
  refine ⟨?_, ?_⟩
  · have hread : (defectiveFiles.readText (providedCodeFile defectiveRoot)).toOption = none := by
      decide +kernel
    have hfile : defectiveFiles.isFile (providedCodeFile defectiveRoot) = true := by decide +kernel
    rcases holdsText_or_notText hfile with ⟨text, htext⟩ | ⟨hnot, -⟩
    · rw [readText_of_holdsText htext] at hread
      cases hread
    · exact .notText hnot
  · obtain ⟨-, hfault, -⟩ :=
      Corpus.load_first_defect defectiveFiles defectiveRoot defectiveSettings
    have hfirst : FirstMisnamed defectiveFiles (defectiveRoot / usersDirectory) ("bob", "latest") :=
      ⟨(hmisnamed _).2 rfl, fun e hlt he => absurd hlt ((hmisnamed e).1 he ▸ lt_irrefl _)⟩
    exact (hfault _).2 (.current ⟨by decide +kernel, husers⟩ (.name hfirst))

end Resemblance
