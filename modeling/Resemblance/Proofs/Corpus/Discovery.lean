import Resemblance.Corpus
import Resemblance.Proofs.Logged
import Resemblance.Proofs.Tree.Place

/-!
# What is found below a directory

Discovery lists the students below a directory and the versions of each.  A source stands in a
directory of its own, named for the student and the version, and has a fingerprint file there.

## What is here

* `Source.IsBelow` — where a source stands; in another place than every other one (`directory_eq`).
* `isBelow_of_mem_discover`, `mem_discover_iff` — all that are found stand there, and all that stand
  there are found.
* `pairwise_discover` — no two of them stand in the same directory.
-/

set_option autoImplicit false
namespace Resemblance

/-- Whether a source stands below a directory: in a directory named for its student and, in any
spelling, for its version, with a fingerprint file. -/
structure Source.IsBelow (t : Tree) (directory : Path) (source : Source) : Prop where
  named : ∃ name, source.directory = directory / source.student / name ∧
    Version.ofName? name = some source.version
  isDirectory : t.isDirectory source.directory = true
  isFile : t.isFile source.file = true

namespace Source.IsBelow

variable {t : Tree} {directory : Path} {source source' : Source}

/-- A source stands two levels below the directory. -/
theorem exists_placeOf (h : source.IsBelow t directory) :
    ∃ name, source.directory = directory / source.student / name ∧
      t.placeOf source.directory = name :: source.student :: t.placeOf directory := by
  obtain ⟨name, hname, -⟩ := h.named
  refine ⟨name, hname, ?_⟩
  rw [hname, Tree.placeOf_child, Tree.placeOf_child]

/-- Sources in different directories stand at different places. -/
theorem directory_eq (h : source.IsBelow t directory) (h' : source'.IsBelow t directory)
    (hplace : t.placeOf source.directory = t.placeOf source'.directory) :
    source.directory = source'.directory := by
  obtain ⟨name, hname, hat⟩ := h.exists_placeOf
  obtain ⟨name', hname', hat'⟩ := h'.exists_placeOf
  rw [hat, hat'] at hplace
  obtain ⟨rfl, hrest⟩ := List.cons.inj hplace
  rw [hname, hname', (List.cons.inj hrest).1]

end Source.IsBelow

/-! ## Looking at directories -/

theorem listDirectories_eq_ok_iff {t : Tree} {path : Path} {names : List String} :
    (listDirectories t path).result = .ok names ↔ t.directories path = .ok names :=
  mapError_eq_ok_iff (x := t.directories path)

theorem inspectVersion_eq_ok_iff {t : Tree} {student : String} {directory : Path} {name : String}
    {found : Option Source} :
    (inspectVersion t student directory name).result = .ok found ↔
      ∃ version, Version.ofName? name = some version ∧
        found = (some ⟨student, version, directory / name⟩ : Option Source).filter fun source =>
          t.isFile source.file := by
  unfold inspectVersion
  cases Version.ofName? name with
  | none => simp [Logged.fail]
  | some version =>
    simp only [Option.some_inj, exists_eq_left', Option.filter_some]
    split
    · rw [Logged.done, Except.ok.injEq]
      exact eq_comm
    · rw [Except.ok.injEq]
      exact eq_comm

/-! ## One student -/

section Student

variable {t : Tree} {directory : Path} {student : String} {sources : List Source}

/-- The sources of a student are those of the version directories, in another order. -/
theorem discoverStudent_eq_ok (h : (discoverStudent t directory student).result = .ok sources) :
    ∃ names found, t.directories (directory / student) = .ok names ∧
      List.Forall₂ (fun name version => (inspectVersion t student (directory / student)
        name).result = .ok version) names found ∧ sources.Perm (found.filterMap id) := by
  rw [discoverStudent, Logged.bind_eq_ok_iff] at h
  obtain ⟨names, hnames, h⟩ := h
  rw [Logged.bind_eq_ok_iff] at h
  obtain ⟨found, hfound, h⟩ := h
  rw [Logged.pure_eq_ok_iff] at h
  refine ⟨names, found, listDirectories_eq_ok_iff.1 hnames, Logged.each_eq_ok_iff.1 hfound, ?_⟩
  rw [← h]
  exact List.mergeSort_perm _ _

/-- Versions that are found in order of their numbers stay in this order. -/
theorem discoverStudent_of_ascending {names : List String} {found : List (Option Source)}
    (hnames : (listDirectories t (directory / student)).result = .ok names)
    (hfound : (Logged.each (inspectVersion t student (directory / student)) names).result =
      .ok found)
    (hascending : (found.filterMap id).Pairwise fun a b => a.version ≤ b.version) :
    (discoverStudent t directory student).result = .ok (found.filterMap id) := by
  rw [discoverStudent, Logged.bind_eq_ok_iff]
  refine ⟨names, hnames, Logged.bind_eq_ok_iff.2 ⟨found, hfound, Logged.pure_eq_ok_iff.2 ?_⟩⟩
  exact List.mergeSort_of_pairwise (hascending.imp decide_eq_true)

theorem isBelow_of_mem_discoverStudent
    (h : (discoverStudent t directory student).result = .ok sources) {source : Source}
    (hsource : source ∈ sources) : source.student = student ∧ source.IsBelow t directory := by
  obtain ⟨names, found, hnames, hfound, hperm⟩ := discoverStudent_eq_ok h
  have hmem : some source ∈ found := by simpa using hperm.mem_iff.1 hsource
  obtain ⟨name, hname, hresult⟩ := exists_of_forall₂ hfound hmem
  obtain ⟨version, hversion, heq⟩ := inspectVersion_eq_ok_iff.1 hresult
  obtain ⟨heq, hfile⟩ := Option.filter_eq_some_iff.1 heq.symm
  obtain rfl := Option.some_inj.1 heq
  refine ⟨rfl, ⟨name, rfl, hversion⟩, ?_, hfile⟩
  exact (Tree.mem_directories_iff hnames name).1 hname

/-- The versions of a student stand in different directories. -/
theorem pairwise_discoverStudent
    (h : (discoverStudent t directory student).result = .ok sources) :
    sources.Pairwise fun a b => a.directory ≠ b.directory := by
  obtain ⟨names, found, hnames, hfound, hperm⟩ := discoverStudent_eq_ok h
  have hne : names.Pairwise (· ≠ ·) := by
    refine (Tree.pairwise_directories hnames).imp fun {a b} hab heq => ?_
    rw [heq, Std.compare_self] at hab
    exact absurd hab (by simp)
  have hsymm : ∀ {a b : Source}, a.directory ≠ b.directory → b.directory ≠ a.directory :=
    fun hab => hab.symm
  rw [hperm.pairwise_iff hsymm, List.pairwise_filterMap]
  refine pairwise_of_forall₂ hfound hne fun name name' a b ha hb hnames source hsource source'
    hsource' heq => hnames ?_
  -- the directory of a source ends in the name it was found under
  have hdirectory : ∀ {name : String} {found : Option Source} {source : Source},
      (inspectVersion t student (directory / student) name).result = .ok found →
        id found = some source → source.directory = directory / student / name := by
    intro name found source hresult hfound
    obtain ⟨version, -, hversion⟩ := inspectVersion_eq_ok_iff.1 hresult
    rw [id] at hfound
    rw [hfound] at hversion
    rw [← Option.some_inj.1 (Option.filter_eq_some_iff.1 hversion.symm).1]
  have hsame := (hdirectory ha hsource).symm.trans (heq.trans (hdirectory hb hsource'))
  exact (Path.child.inj hsame).2

end Student

/-! ## All students -/

section All

variable {t : Tree} {directory : Path} {sources : List Source}

theorem discover_eq_ok (h : (discover t directory).result = .ok sources) :
    ∃ students found, t.directories directory = .ok students ∧
      List.Forall₂ (fun student versions =>
        (discoverStudent t directory student).result = .ok versions) students found ∧
          sources = found.flatten := by
  rw [discover, Logged.bind_eq_ok_iff] at h
  obtain ⟨students, hstudents, h⟩ := h
  rw [Logged.bind_eq_ok_iff] at h
  obtain ⟨found, hfound, h⟩ := h
  rw [Logged.pure_eq_ok_iff] at h
  exact ⟨students, found, listDirectories_eq_ok_iff.1 hstudents, Logged.each_eq_ok_iff.1 hfound,
    h.symm⟩

theorem discover_of_forall₂ {students : List String} {found : List (List Source)}
    (hstudents : (listDirectories t directory).result = .ok students)
    (hfound : List.Forall₂ (fun student versions =>
      (discoverStudent t directory student).result = .ok versions) students found) :
    (discover t directory).result = .ok found.flatten := by
  rw [discover, Logged.bind_eq_ok_iff]
  exact ⟨students, hstudents, Logged.bind_eq_ok_iff.2 ⟨found, Logged.each_eq_ok_iff.2 hfound, rfl⟩⟩

/-- **All sources that are found stand below the directory.** -/
theorem isBelow_of_mem_discover (h : (discover t directory).result = .ok sources)
    {source : Source} (hsource : source ∈ sources) : source.IsBelow t directory := by
  obtain ⟨students, found, -, hfound, rfl⟩ := discover_eq_ok h
  obtain ⟨versions, hversions, hsource⟩ := List.mem_flatten.1 hsource
  obtain ⟨student, -, hresult⟩ := exists_of_forall₂ hfound hversions
  exact (isBelow_of_mem_discoverStudent hresult hsource).2

/-- **A source is found exactly where it stands below the directory.** -/
theorem mem_discover_iff (h : (discover t directory).result = .ok sources) {source : Source} :
    source ∈ sources ↔ source.IsBelow t directory := by
  refine ⟨isBelow_of_mem_discover h, fun hsource => ?_⟩
  obtain ⟨students, found, hstudents, hfound, rfl⟩ := discover_eq_ok h
  obtain ⟨name, hname, hversion⟩ := hsource.named
  have hdirectory := hsource.isDirectory
  rw [hname] at hdirectory
  have hstudent := Tree.isDirectory_of_isDirectory_child (Tree.child_ne_empty _ _) hdirectory
  -- the student is listed, and so is the version
  obtain ⟨versions, hversions, hresult⟩ :=
    exists_mem_of_forall₂ hfound ((Tree.mem_directories_iff hstudents _).2 hstudent)
  obtain ⟨names, inspected, hnames, hinspected, hperm⟩ := discoverStudent_eq_ok hresult
  obtain ⟨found?, hmem, hinspect⟩ :=
    exists_mem_of_forall₂ hinspected ((Tree.mem_directories_iff hnames name).2 hdirectory)
  obtain ⟨version, hversion', hfound?⟩ := inspectVersion_eq_ok_iff.1 hinspect
  have hsame :
      (⟨source.student, version, directory / source.student / name⟩ : Source) = source := by
    rw [← hname, ← Option.some_inj.1 (hversion.symm.trans hversion')]
  rw [hfound?, hsame, Option.filter_some, if_pos hsource.isFile] at hmem
  refine List.mem_flatten.2 ⟨versions, hversions, hperm.mem_iff.2 ?_⟩
  exact List.mem_filterMap.2 ⟨some source, hmem, rfl⟩

/-- **No two sources that are found stand in the same directory.** -/
theorem pairwise_discover (h : (discover t directory).result = .ok sources) :
    sources.Pairwise fun a b => a.directory ≠ b.directory := by
  obtain ⟨students, found, hstudents, hfound, rfl⟩ := discover_eq_ok h
  have hne : students.Pairwise (· ≠ ·) := by
    refine (Tree.pairwise_directories hstudents).imp fun {a b} hab heq => ?_
    rw [heq, Std.compare_self] at hab
    exact absurd hab (by simp)
  rw [List.pairwise_flatten]
  constructor
  · intro versions hversions
    obtain ⟨student, -, hresult⟩ := exists_of_forall₂ hfound hversions
    exact pairwise_discoverStudent hresult
  · refine pairwise_of_forall₂ hfound hne fun student student' versions versions' hresult hresult'
      hstudents a ha b hb heq => hstudents ?_
    obtain ⟨rfl, ⟨⟨name, hname, -⟩, -, -⟩⟩ := isBelow_of_mem_discoverStudent hresult ha
    obtain ⟨rfl, ⟨⟨name', hname', -⟩, -, -⟩⟩ := isBelow_of_mem_discoverStudent hresult' hb
    rw [hname, hname'] at heq
    exact (Path.child.inj (Path.child.inj heq).1).2

end All
end Resemblance
