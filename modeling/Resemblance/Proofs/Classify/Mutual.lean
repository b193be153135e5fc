import Resemblance.Proofs.Classify.Verdict
import Resemblance.Proofs.Region.Evidence

/-!
# Evidence is mutual

Two submissions of the same gradeable are compared one after the other.  What the first comparison
finds in the second submission, the second one finds in the first: both look the same fingerprint up
in the same indices, and neither takes the other for the owner.  Only the neighbours of a position
can differ, and they are all that may suppress the answer.

## What is here

* `Reference.Plain` — fingerprints that are neither provided nor common, which makes a position
  with them unmarked (`unmarked_of_plain`).
* `current_of_cites`, `suspicious_mem_marks_of_current` — what a place in the same gradeable says
  of its fingerprint, and that this is enough for the mark.
* `evidence_mutual` — so the two comparisons answer each other.
-/

set_option autoImplicit false
namespace Resemblance

/-- Whether a fingerprint is neither provided code nor common. -/
def Reference.Plain (r : Reference) (f : Fingerprint) : Prop :=
  r.isProvided f = false ∧ r.isCommon f = false

section Comparison

variable {r : Reference} {s : Submission} {width : Nat}

/-- A position with a plain fingerprint gets no common and no provided mark. -/
theorem unmarked_of_plain {f : Fingerprint} {q : Position} (hf : s.fingerprintAt? q = some f)
    (hplain : r.Plain f) : ¬(classify r s width).IsMarked q := by
  rintro (hq | hq)
  · rw [classify, Ledger.mem_common_recordAll, Reference.mem_marks_iff] at hq
    obtain ⟨⟨g, hg, hmark⟩, -⟩ := hq
    obtain rfl : f = g := Option.some_inj.1 (hf.symm.trans hg)
    have hcommon := ((r.common_mem_marksAt_iff _ _ _).1 hmark).2.2
    exact absurd (hplain.2.symm.trans hcommon) Bool.false_ne_true
  · rw [classify, Ledger.mem_provided_recordAll, Reference.mem_marks_iff] at hq
    obtain ⟨g, hg, hmark⟩ := hq
    obtain rfl : f = g := Option.some_inj.1 (hf.symm.trans hg)
    have hprovided := (r.provided_mem_marksAt_iff _ _ _).1 hmark
    exact absurd (hplain.1.symm.trans hprovided) Bool.false_ne_true

/-- A place in the same gradeable is one of another student, who has the fingerprint there, and the
fingerprint is plain. -/
theorem current_of_cites (hothers : ∀ i ∈ r.others, i.label ≠ r.current.label) {p : Position}
    {x : Location} (hlabel : x.peer.gradeable = r.current.label)
    (h : (classify r s width).Cites p x) :
    ∃ f, s.fingerprintAt? p = some f ∧ r.Plain f ∧ x.peer.student ≠ s.student ∧
      x ∈ r.current.locations f := by
  have hmark := ((cites_classify r s width p x).1 h).1
  obtain ⟨f, hf, hmark⟩ := (r.mem_marks_iff s _).1 hmark
  obtain ⟨hprovided, hplace⟩ := (r.suspicious_mem_marksAt_iff _ _ _ _).1 hmark
  rcases hplace with ⟨hx, hcommon⟩ | hx
  · rw [Reference.mem_otherBearers_iff] at hx
    exact ⟨f, hf, ⟨hprovided, hcommon⟩, hx⟩
  · -- an earlier gradeable has another label
    obtain ⟨i, hi, hx⟩ := List.mem_flatMap.1 hx
    have hi' := ((Bearers.mem_locations_iff _ _ _).1 hx).1
    exact absurd (hi'.symm.trans hlabel) (hothers i hi)

/-- A plain fingerprint of another student makes a suspicious mark. -/
theorem suspicious_mem_marks_of_current {f : Fingerprint} {q : Position} {x : Location}
    (hf : s.fingerprintAt? q = some f) (hplain : r.Plain f) (hstudent : x.peer.student ≠ s.student)
    (hx : x ∈ r.current.locations f) : Mark.suspicious q x ∈ r.marks s := by
  refine (r.mem_marks_iff s _).2 ⟨f, hf, (r.suspicious_mem_marksAt_iff _ _ _ _).2 ⟨hplain.1, ?_⟩⟩
  exact .inl ⟨(r.mem_otherBearers_iff _ _ _).2 ⟨hstudent, hx⟩, hplain.2⟩

/-- A plain fingerprint of another student is cited, unless a neighbour suppresses it. -/
theorem cites_or_overlaps_of_current (hwidth : 1 ≤ width) {f : Fingerprint} {q : Position}
    {x : Location} (hf : s.fingerprintAt? q = some f) (hplain : r.Plain f)
    (hstudent : x.peer.student ≠ s.student) (hx : x ∈ r.current.locations f) :
    (classify r s width).Cites q x ∨
      ∃ m, (classify r s width).IsMarked m ∧ Overlaps width q m := by
  rw [cites_classify, width_classify s r hwidth]
  by_cases hfree : ∀ m, (classify r s width).IsMarked m → ¬Overlaps width q m
  · exact .inl ⟨suspicious_mem_marks_of_current hf hplain hstudent hx, hfree⟩
  · push Not at hfree
    exact .inr hfree

end Comparison

/-! ## Indices that were loaded -/

/-- An index that was loaded from sources has all their locations. -/
theorem mem_locations_of_hasAt {t : Tree} {label : String} {sources : List Source} {i : Index}
    (h : loadIndex t label sources = .ok i) {f : Fingerprint} {x : Location}
    (hx : HasAt t label sources f x) : x ∈ i.locations f := by
  obtain ⟨hlabel, source, hsource, hstudent, hversion, b, hload, hf⟩ := hx
  obtain ⟨submissions, hloaded, rfl⟩ := map_eq_ok_iff.1 h
  obtain ⟨b', hb', hload'⟩ := exists_mem_of_mapM hloaded hsource
  obtain rfl : b = b' := Except.ok.inj (hload.symm.trans hload')
  -- what a source loads has its student and its version
  obtain ⟨fingerprints, -, rfl⟩ := map_eq_ok_iff.1 hload
  exact (Index.mem_locations_ofSubmissions label submissions f x).2
    ⟨hlabel, _, hb', hstudent, hversion, hf⟩

theorem label_of_loadIndex {t : Tree} {label : String} {sources : List Source} {i : Index}
    (h : loadIndex t label sources = .ok i) : i.label = label := by
  obtain ⟨submissions, -, rfl⟩ := map_eq_ok_iff.1 h
  exact Index.label_ofSightings _ _

theorem student_of_load {t : Tree} {source : Source} {s : Submission}
    (h : source.load t = .ok s) : s.student = source.student ∧ s.version = source.version := by
  obtain ⟨fingerprints, -, rfl⟩ := map_eq_ok_iff.1 h
  exact ⟨rfl, rfl⟩

/-- **Evidence is mutual.**  The current index is loaded from sources, and no earlier index bears
its label; provided code and threshold are arbitrary.  When the comparison of a loaded submission
`a` cites, at `p`, the place `q` of a student's version, then there is a loaded submission of that
student and version with the fingerprint of `p` at `q`.  The comparison of every such submission
cites, at `q`, the place `p` of `a`, unless its position `q` overlaps a common or provided one of
its own.  When a fingerprint stands for one token, it always does. -/
theorem evidence_mutual {t : Tree} {label : String} {sources : List Source} {r : Reference}
    (hcurrent : loadIndex t label sources = .ok r.current)
    (hothers : ∀ i ∈ r.others, i.label ≠ label) {source : Source} (hsource : source ∈ sources)
    {a : Submission} (ha : source.load t = .ok a) {hashSize : Nat} (hsize : 1 ≤ hashSize)
    {p q : Position} {student : String} {version : Version}
    (hcites : (classify r a hashSize).Cites p ⟨⟨student, version, label⟩, q⟩) :
    (∃ other ∈ sources, ∃ b, other.load t = .ok b ∧ b.student = student ∧ b.version = version ∧
        b.fingerprintAt? q = a.fingerprintAt? p) ∧
      ∀ other ∈ sources, ∀ b, other.load t = .ok b → b.student = student → b.version = version →
        b.fingerprintAt? q = a.fingerprintAt? p →
          ((classify r b hashSize).Cites q ⟨⟨a.student, a.version, label⟩, p⟩ ∨
              ∃ m, (classify r b hashSize).IsMarked m ∧ Overlaps hashSize q m) ∧
            (hashSize = 1 →
              (classify r b hashSize).Cites q ⟨⟨a.student, a.version, label⟩, p⟩) := by
  have hlabel : r.current.label = label := label_of_loadIndex hcurrent
  rw [← hlabel] at hothers
  obtain ⟨f, hf, hplain, hstudent, hx⟩ := current_of_cites hothers hlabel.symm hcites
  dsimp only at hstudent
  constructor
  · obtain ⟨-, other, hother, hs, hv, b, hb, hplace⟩ := hasAt_of_mem_locations hcurrent hx
    obtain ⟨hbs, hbv⟩ := student_of_load hb
    exact ⟨other, hother, b, hb, hbs.trans hs, hbv.trans hv, hplace.trans hf.symm⟩
  · intro other hother b hb hbs _ hplace
    have hplace' : b.fingerprintAt? q = some f := hplace.trans hf
    have howner : a.student ≠ b.student := fun h => hstudent (hbs.symm.trans h.symm)
    have hback : (⟨⟨a.student, a.version, label⟩, p⟩ : Location) ∈ r.current.locations f := by
      obtain ⟨has, hav⟩ := student_of_load ha
      exact mem_locations_of_hasAt hcurrent
        ⟨rfl, source, hsource, has.symm, hav.symm, a, ha, hf⟩
    have hanswer := cites_or_overlaps_of_current hsize hplace' hplain howner hback
    refine ⟨hanswer, fun hone => hanswer.resolve_right ?_⟩
    rintro ⟨m, hm, hoverlap⟩
    -- with one token only `q` itself could suppress the answer
    obtain rfl : q = m := by
      rw [Overlaps, hone] at hoverlap
      rw [← UInt64.toNat_inj]
      omega
    exact unmarked_of_plain hplace' hplain hm

/-- The files of two students with one fingerprint in common. -/
def pairFiles : Tree where
  start := []
  nodes := .ofList
    [(["ada"], .directory), (["hashes.txt", "ada"], .file "7".toUTF8),
      (["bob"], .directory), (["hashes.txt", "bob"], .file "9 7".toUTF8)] compare

def pairSources : List Source := [⟨"ada", 1, .given "ada"⟩, ⟨"bob", 1, .given "bob"⟩]

/-- The other fingerprint is provided code, which suppresses what the second student shares. -/
def pairReference : Reference where
  current := .ofSubmissions "hw" [⟨"ada", 1, #[7]⟩, ⟨"bob", 1, #[9, 7]⟩]
  provided := some (.ofFingerprints [9])
  others := [.ofSubmissions "old" [⟨"ada", 1, #[7]⟩]]
  threshold := 2

theorem evidence_mutual_pair :
    (classify pairReference ⟨"ada", 1, #[7]⟩ 2).Cites 1 ⟨⟨"bob", 1, "hw"⟩, 2⟩ ∧
      ((classify pairReference ⟨"bob", 1, #[9, 7]⟩ 2).Cites 2 ⟨⟨"ada", 1, "hw"⟩, 1⟩ ∨
        ∃ m, (classify pairReference ⟨"bob", 1, #[9, 7]⟩ 2).IsMarked m ∧ Overlaps 2 2 m) := by
  have hloads : (pairSources.mapM fun source : Source => source.load pairFiles) =
      .ok [⟨"ada", 1, #[7]⟩, ⟨"bob", 1, #[9, 7]⟩] := toOption_eq_some_iff.1 (by decide +kernel)
  have hcurrent : loadIndex pairFiles "hw" pairSources = .ok pairReference.current :=
    map_eq_ok_iff.2 ⟨_, hloads, rfl⟩
  have hothers : ∀ i ∈ pairReference.others, i.label ≠ "hw" := by decide +kernel
  have hada : Source.load ⟨"ada", 1, .given "ada"⟩ pairFiles = .ok ⟨"ada", 1, #[7]⟩ :=
    toOption_eq_some_iff.1 (by decide +kernel)
  have hbob : Source.load ⟨"bob", 1, .given "bob"⟩ pairFiles = .ok ⟨"bob", 1, #[9, 7]⟩ :=
    toOption_eq_some_iff.1 (by decide +kernel)
  have hcites : (classify pairReference ⟨"ada", 1, #[7]⟩ 2).Cites 1 ⟨⟨"bob", 1, "hw"⟩, 2⟩ := by
    let l := classify pairReference ⟨"ada", 1, #[7]⟩ 2
    have hplace : (l.suspicious[(1 : Position)]?.any fun hit =>
        hit.locations.contains ⟨⟨"bob", 1, "hw"⟩, 2⟩) = true := by decide +kernel
    obtain ⟨hit, hhit, hx⟩ := (Option.any_eq_true _ _).1 hplace
    exact ⟨hit, hhit, Std.ExtTreeSet.contains_iff_mem.1 hx⟩
  have hmutual := evidence_mutual hcurrent hothers (by decide : _ ∈ pairSources) hada (by decide)
    hcites
  exact ⟨hcites, (hmutual.2 _ (by decide) _ hbob rfl rfl rfl).1⟩

end Resemblance
