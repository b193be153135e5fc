import Resemblance.Corpus
import Resemblance.Proofs.Attempt
import Resemblance.Proofs.Classify.Marks
import Resemblance.Proofs.Classify.Sources
import Resemblance.Proofs.Region.OfLedger

/-!
# What a region claims is so

A match region tells of windows in other submissions.  Each of its positions was found there: the
fingerprint of the submission stands at the same distance from the start of every window.

## What is here

* `cites_of_mem_windows` — a window of a region stands, position by position, for places of the
  ledger.
* `mem_locations_of_cites` — a place of the ledger comes from one of the indices.
* `HasAt` — what the sources of a gradeable have at a location, and `hasAt_of_mem_locations` — an
  index that was loaded from them knows nothing else.
* `evidence_sound` — so each position of a region is found in a submission that was loaded.
-/

set_option autoImplicit false
namespace Resemblance

/-! ## From regions to the ledger -/

/-- A window of a region stands for places of the ledger, one for each position of the region. -/
theorem Ledger.Valid.cites_of_mem_windows {l : Ledger} (h : l.Valid) {hashSize cap : Nat}
    {r : Region} (hr : r ∈ l.regions hashSize cap) {others : List Group}
    (hkind : r.kind = .matched others) {g : Group} (hg : g ∈ others) {w : Window}
    (hw : w ∈ g.windows) {k : Position} (hk : k ≤ r.last - r.first) :
    l.Cites (r.first + k) ⟨g.peer, w.first + k⟩ := by
  have hslice := h.slice_mem_positionRegions hr hk
  rw [mem_positionRegions_iff, Region.slice, hkind] at hslice
  rcases hslice with ⟨p, hit, hp, heq⟩ | ⟨p, -, heq⟩ | ⟨p, -, heq⟩
  · rw [Region.single, Region.single, Region.mk.injEq, Kind.slice, Kind.matched.injEq] at heq
    obtain ⟨rfl, -, hgroups⟩ := heq
    have hgroup : g.slice hashSize k ∈ Group.ofLocations hashSize cap hit.locations.toList :=
      hgroups ▸ List.mem_map_of_mem hg
    have hwindow : w.slice hashSize k ∈ (g.slice hashSize k).windows := List.mem_map_of_mem hw
    obtain ⟨⟨peer, position⟩, hx, hpeer, hplace⟩ := exists_location_of_mem_windows hgroup hwindow
    rw [Window.slice, Window.ofPosition, Window.mk.injEq] at hplace
    obtain ⟨rfl, -⟩ := hplace
    obtain rfl : peer = g.peer := hpeer
    exact ⟨hit, hp, Std.ExtTreeSet.mem_toList.1 hx⟩
  · simp [Region.single, Kind.slice] at heq
  · simp [Region.single, Kind.slice] at heq

/-! ## From the ledger to the indices -/

/-- A place that a comparison leaves is where one of the indices has the fingerprint. -/
theorem mem_locations_of_cites {r : Reference} {s : Submission} {width : Nat} {p : Position}
    {x : Location}
    (h : (classify r s width).Cites p x) :
    ∃ f, s.fingerprintAt? p = some f ∧ ∃ i ∈ r.current :: r.others, x ∈ i.locations f := by
  have hmark := ((cites_classify r s width p x).1 h).1
  obtain ⟨f, hf, hmark⟩ := (r.mem_marks_iff s _).1 hmark
  refine ⟨f, hf, ?_⟩
  rcases ((r.suspicious_mem_marksAt_iff _ _ _ _).1 hmark).2 with ⟨hx, -⟩ | hx
  · exact ⟨r.current, List.mem_cons_self, ((r.mem_otherBearers_iff _ _ _).1 hx).2⟩
  · obtain ⟨i, hi, hx⟩ := List.mem_flatMap.1 hx
    exact ⟨i, List.mem_cons_of_mem _ hi, hx⟩

/-! ## From the indices to the sources -/

/-- Whether a source of a gradeable, when it is loaded, has a fingerprint at a location. -/
def HasAt (t : Tree) (label : String) (sources : List Source) (f : Fingerprint) (x : Location) :
    Prop :=
  x.peer.gradeable = label ∧
    ∃ source ∈ sources, source.student = x.peer.student ∧ source.version = x.peer.version ∧
      ∃ b, source.load t = .ok b ∧ b.fingerprintAt? x.position = some f

/-- An index that was loaded from sources has no location but theirs. -/
theorem hasAt_of_mem_locations {t : Tree} {label : String} {sources : List Source} {i : Index}
    (h : loadIndex t label sources = .ok i) {f : Fingerprint} {x : Location}
    (hx : x ∈ i.locations f) : HasAt t label sources f x := by
  obtain ⟨submissions, hloaded, rfl⟩ := map_eq_ok_iff.1 h
  obtain ⟨hlabel, b, hb, hstudent, hversion, hf⟩ :=
    (Index.mem_locations_ofSubmissions label submissions f x).1 hx
  obtain ⟨source, hsource, hload⟩ := exists_of_mem_mapM hloaded hb
  -- a source gives its student and its version to what it loads
  obtain ⟨fingerprints, -, rfl⟩ := map_eq_ok_iff.1 hload
  exact ⟨hlabel, source, hsource, hstudent, hversion, _, hload, hf⟩

/-- No fingerprint stands at zero. -/
theorem HasAt.position_ne_zero {t : Tree} {label : String} {sources : List Source}
    {f : Fingerprint} {x : Location} (h : HasAt t label sources f x) : x.position ≠ 0 := by
  obtain ⟨-, -, -, -, -, b, -, hf⟩ := h
  exact Submission.ne_zero_of_fingerprintAt? hf

/-- **Every window of every region was found in a submission that was loaded.**  The current index
is loaded from sources, and so is one index for each earlier gradeable; provided code, threshold,
cap and the submission are arbitrary.  Then a window is as long as its region and the tokens of one
fingerprint together, with an end that wraps around if it has to.  The fingerprint at each position
of the region is found at the same distance from the start of the window, in a submission of the
peer, and these places never wrap around. -/
theorem evidence_sound {t : Tree} {label : String} {sources : List Source}
    {earlier : List (String × List Source)} {reference : Reference}
    (hcurrent : loadIndex t label sources = .ok reference.current)
    (hothers : (earlier.mapM fun e => loadIndex t e.1 e.2) = .ok reference.others)
    (s : Submission) {hashSize : Nat} (hsize : 1 ≤ hashSize) (cap : Nat) {r : Region}
    (hr : r ∈ (classify reference s hashSize).regions hashSize cap) {others : List Group}
    (hkind : r.kind = .matched others) {g : Group} (hg : g ∈ others) {w : Window}
    (hw : w ∈ g.windows) :
    r.first ≤ r.last ∧
      w.last.toNat = (w.first.toNat + (r.last.toNat - r.first.toNat) + hashSize - 1) % UInt64.size ∧
      ∀ k ≤ r.last - r.first,
        ((r.first + k).toNat = r.first.toNat + k.toNat ∧
          (w.first + k).toNat = w.first.toNat + k.toNat) ∧
        ∃ f, s.fingerprintAt? (r.first + k) = some f ∧
          ∃ e ∈ (label, sources) :: earlier, HasAt t e.1 e.2 f ⟨g.peer, w.first + k⟩ := by
  have hvalid := valid_classify reference s hashSize
  have hfits := hvalid.fits_of_mem_regions hr
  have hplaces : ∀ k ≤ r.last - r.first, ∃ f, s.fingerprintAt? (r.first + k) = some f ∧
      ∃ e ∈ (label, sources) :: earlier, HasAt t e.1 e.2 f ⟨g.peer, w.first + k⟩ := by
    intro k hk
    obtain ⟨f, hf, i, hi, hx⟩ :=
      mem_locations_of_cites (hvalid.cites_of_mem_windows hr hkind hg hw hk)
    refine ⟨f, hf, ?_⟩
    rcases List.mem_cons.1 hi with rfl | hi
    · exact ⟨_, List.mem_cons_self, hasAt_of_mem_locations hcurrent hx⟩
    · obtain ⟨e, he, hload⟩ := exists_of_mem_mapM hothers hi
      exact ⟨e, List.mem_cons_of_mem _ he, hasAt_of_mem_locations hload hx⟩
  refine ⟨hfits.ordered, ?_, fun k hk => ⟨⟨?_, ?_⟩, hplaces k hk⟩⟩
  · have hwidth := hfits.width
    rw [hkind] at hwidth
    have hordered := UInt64.le_iff_toNat_le.1 hfits.ordered
    rw [hwidth g hg w hw, Nat.max_eq_left hsize, UInt64.toNat_add, UInt64.toNat_add,
      UInt64.toNat_sub_of_le r.last r.first hfits.ordered, UInt64.toNat_ofNat', UInt64.size]
    omega
  · exact Position.toNat_add_of_le_sub hfits.ordered hk
  · refine Position.toNat_add_of_forall_ne_zero fun j hj => ?_
    obtain ⟨f, -, e, -, hat⟩ := hplaces j (UInt64.le_trans hj hk)
    exact hat.position_ne_zero

/-- A tree with the file of one submission. -/
def bobFiles : Tree where
  start := []
  nodes := .ofList [(["bob"], .directory), (["hashes.txt", "bob"], .file "7 8".toUTF8)] compare

def bobSources : List Source := [⟨"bob", 1, .given "bob"⟩]

def bobReference : Reference where
  current := .ofSubmissions "hw" [⟨"bob", 1, #[7, 8]⟩]
  provided := none
  others := []
  threshold := 2

/-- What another student hands in. -/
def bobCopied : Submission := ⟨"ada", 1, #[7, 8]⟩

theorem evidence_sound_copied :
    ∃ f, bobCopied.fingerprintAt? (1 + 1) = some f ∧
      ∃ e ∈ [("hw", bobSources)], HasAt bobFiles e.1 e.2 f ⟨⟨"bob", 1, "hw"⟩, 1 + 1⟩ := by
  have hload : (bobSources.mapM fun source : Source => source.load bobFiles) =
      .ok [⟨"bob", 1, #[7, 8]⟩] := toOption_eq_some_iff.1 (by decide +kernel)
  have hcurrent : loadIndex bobFiles "hw" bobSources = .ok bobReference.current :=
    map_eq_ok_iff.2 ⟨_, hload, rfl⟩
  have hothers : (([] : List (String × List Source)).mapM fun e => loadIndex bobFiles e.1 e.2) =
      .ok bobReference.others := rfl
  have hregions : (classify bobReference bobCopied 3).regions 3 4 =
      [⟨1, 2, .matched [⟨⟨"bob", 1, "hw"⟩, [⟨1, 4⟩]⟩]⟩] := by
    -- sorting does not compute, but there is nothing to sort
    rw [Ledger.regions, Ledger.positionRegions, List.mergeSort_of_pairwise (by decide +kernel)]
    decide +kernel
  exact ((evidence_sound hcurrent hothers bobCopied (by decide) 4
    (hregions ▸ List.mem_cons_self) rfl List.mem_cons_self List.mem_cons_self).2.2 1 (by decide)).2

end Resemblance
