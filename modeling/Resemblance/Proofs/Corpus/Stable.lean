import Resemblance.Proofs.Corpus.Footprint

/-!
# Loading is not disturbed by other files

Loading reads directories and fingerprint files and nothing else.  So two trees have the same corpus
when they agree outside some places none of which is named like a fingerprint file, and so does
every submission that is read again.

## What is here

* `gradeableAlike_of_agree` — trees that agree hold the same of all that is loaded.
* `Source.load_eq` — reading one submission again.
* `Corpus.load_eq` — the whole corpus, with its notices and faults.
* `Corpus.load_eq_ok`, `Corpus.exists_load` — what is known once a corpus was loaded.
* `Corpus.load_of_discover` — a corpus that is loaded.
-/

set_option autoImplicit false
namespace Resemblance

open Resemblance.Tree

section Agree

variable {P : Place → Prop} {t u : Tree} (h : AgreeOutside P t u)
  (hP : ∀ place, ¬P (fingerprintFile :: place))

include h hP

/-! ## Trees that agree -/

theorem fileAlike_of_agree (directory : Path) :
    FileAlike t u (directory / fingerprintFile) :=
  ⟨h.isFile_eq hP directory, h.readText_eq hP⟩

theorem sourcesAlike_of_agree (directory : Path) : SourcesAlike t u directory where
  student _ := h.isDirectory_eq _
  version _ _ := h.isDirectory_eq _
  file _ _ := fileAlike_of_agree h hP _

theorem gradeableAlike_of_agree (root : Path) : GradeableAlike t u root where
  gradeable := h.isDirectory_eq root
  users := h.isDirectory_eq _
  current := sourcesAlike_of_agree h hP _
  provided := fileAlike_of_agree h hP _
  others := h.isDirectory_eq _
  other _ := h.isDirectory_eq _
  earlier _ := sourcesAlike_of_agree h hP _

/-- **A submission that is read again is the same.** -/
theorem Source.load_eq {source : Source} (hfile : t.isFile source.file = true) :
    source.load u = source.load t :=
  load_eq_of_alike (fileAlike_of_agree h hP source.directory) hfile

/-- **The corpus is the same**, and where it cannot be loaded the fault is the same. -/
theorem Corpus.load_eq (root : Path) (settings : Settings.Gradeable) :
    Corpus.load u root settings = Corpus.load t root settings :=
  load_eq_of_alike (gradeableAlike_of_agree h hP root) settings

end Agree

/-! ## A corpus that was loaded -/

section Loaded

variable {t : Tree} {root : Path} {settings : Settings.Gradeable} {corpus : Corpus}

/-- What is known once a corpus was loaded: the root is a directory, the sources are those below the
directory of users, the current index is that of their submissions, and the others are those of the
earlier gradeables. -/
theorem Corpus.load_eq_ok (h : (Corpus.load t root settings).result = .ok corpus) :
    t.isDirectory root = true ∧
      (discover t (root / usersDirectory)).result = .ok corpus.sources ∧
        loadIndex t settings.label corpus.sources = .ok corpus.reference.current ∧
          (loadOtherGradeables t root).result = .ok corpus.reference.others := by
  rw [load] at h
  split at h
  · exact absurd h (by simp [Logged.fail])
  · rename_i hroot
    split at h
    · exact absurd h (by simp [Logged.fail])
    · obtain ⟨sources, hsources, h⟩ := Logged.bind_eq_ok_iff.1 h
      obtain ⟨current, hcurrent, h⟩ := Logged.bind_eq_ok_iff.1 h
      have hrest : ∃ provided, (loadOtherGradeables t root >>= fun others =>
          (pure ⟨⟨current, provided, others, settings.threshold⟩, sources⟩ :
            Logged Corpus)).result = .ok corpus := by
        split at h
        · exact (Logged.bind_eq_ok_iff.1 h).imp fun provided => And.right
        · exact (Logged.bind_eq_ok_iff.1 h).imp fun provided => And.right
      obtain ⟨provided, h⟩ := hrest
      obtain ⟨others, hothers, h⟩ := Logged.bind_eq_ok_iff.1 h
      obtain rfl := Logged.pure_eq_ok_iff.1 h
      exact ⟨by simpa using hroot, hsources, hcurrent, hothers⟩

theorem Corpus.isBelow (h : (Corpus.load t root settings).result = .ok corpus) {source : Source}
    (hsource : source ∈ corpus.sources) : source.IsBelow t (root / usersDirectory) :=
  isBelow_of_mem_discover (Corpus.load_eq_ok h).2.1 hsource

/-- **Every source of a corpus was read.** -/
theorem Corpus.exists_load (h : (Corpus.load t root settings).result = .ok corpus)
    {source : Source} (hsource : source ∈ corpus.sources) :
    ∃ submission, source.load t = .ok submission := by
  obtain ⟨submissions, hsubmissions, -⟩ := map_eq_ok_iff.1 (Corpus.load_eq_ok h).2.2.1
  obtain ⟨submission, -, hload⟩ := exists_mem_of_mapM hsubmissions hsource
  exact ⟨submission, hload⟩

/-- A gradeable without provided code and earlier gradeables is loaded when its sources are found
and can be read. -/
theorem Corpus.load_of_discover {sources : List Source} {submissions : List Submission}
    (hroot : t.isDirectory root = true) (husers : t.isDirectory (root / usersDirectory) = true)
    (hothers : t.isDirectory (root / otherGradeablesDirectory) = false)
    (hprovided : settings.providedCodeEnabled = false)
    (hsources : (discover t (root / usersDirectory)).result = .ok sources)
    (hload : (sources.mapM fun source : Source => source.load t) = .ok submissions) :
    (Corpus.load t root settings).result = .ok
      ⟨⟨.ofSubmissions settings.label submissions, none, [], settings.threshold⟩, sources⟩ := by
  have hindex : loadIndex t settings.label sources =
      .ok (.ofSubmissions settings.label submissions) := map_eq_ok_iff.2 ⟨_, hload, rfl⟩
  have hnone : (loadOtherGradeables t root).result = .ok [] := by
    rw [loadOtherGradeables, if_neg (by rw [hothers]; decide)]
    rfl
  rw [load, if_neg (by rw [hroot]; decide), if_neg (by rw [husers]; decide), Logged.bind_eq_ok_iff]
  refine ⟨_, hsources, Logged.bind_eq_ok_iff.2 ⟨_, hindex, ?_⟩⟩
  rw [if_neg (by rw [hprovided]; decide)]
  exact Logged.bind_eq_ok_iff.2 ⟨_, rfl, Logged.bind_eq_ok_iff.2 ⟨_, hnone, rfl⟩⟩

end Loaded
end Resemblance
