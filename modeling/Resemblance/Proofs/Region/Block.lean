import Resemblance.Proofs.Classify.Mutual
import Resemblance.Proofs.Classify.Stricter
import Resemblance.Proofs.Region.Maximal

/-!
# Copied blocks are reported whole

When a student copies a stretch of another student's work, and what was copied is found nowhere
else, the report has one region for it.  The region may be longer than the block, since the
neighbours may continue it, but the block is never torn apart, and every position of it points to
where it was copied from.

## What is here

* `Region.citing` — the region of a position with one place; such a position has one group with one
  window (`Group.ofLocations_singleton`).
* `Ledger.Valid.exists_region_of_block` — positions that cite one place each, side by side, are in
  one region.
* `Collection` — the submissions for a gradeable and for earlier ones, and `Collection.reference`.
* `Collection.StandsOnlyAt`, `Collection.HasCopiedBlock` — a block that two students have in common
  and nobody else has.
* `HasCopiedBlock.cites_iff` — what a comparison cites there: the origin, and nothing else.
* `copied_block_reported_whole` — the block is in one region, mapped to its origin.
-/

set_option autoImplicit false
namespace Resemblance

open Std

/-! ## One place for each position -/

theorem Group.ofLocations_singleton (hashSize cap : Nat) (x : Location) :
    Group.ofLocations hashSize cap [x] =
      [⟨x.peer, [Window.ofPosition hashSize x.position]⟩] := by
  rw [ofLocations, Location.byPeer, Location.byPeer, List.flatMap_singleton, chunks, List.take_nil,
    List.drop_nil, chunks]
  rfl

/-- What has a slice with one group of one window, has one group of one window itself. -/
theorem Kind.eq_matched_of_slice {hashSize : Nat} {k : Position} {kind : Kind} {peer : Peer}
    {v : Window} (h : kind.slice hashSize k = .matched [⟨peer, [v]⟩]) :
    ∃ w : Window, kind = .matched [⟨peer, [w]⟩] ∧ w.slice hashSize k = v := by
  cases kind with
  | matched others =>
    obtain ⟨⟨peer', windows⟩, rfl, hgroup⟩ := List.map_eq_singleton_iff.1 (matched.inj h)
    obtain ⟨rfl, hwindows⟩ := Group.mk.inj hgroup
    obtain ⟨w, rfl, hw⟩ := List.map_eq_singleton_iff.1 hwindows
    exact ⟨w, rfl, hw⟩
  | common => exact absurd h (by simp [slice])
  | provided => exact absurd h (by simp [slice])

/-- The region of a position that cites one place. -/
def Region.citing (hashSize : Nat) (p : Position) (peer : Peer) (q : Position) : Region :=
  .single p (.matched [⟨peer, [Window.ofPosition hashSize q]⟩])

theorem Region.citing_continuedBy (hashSize : Nat) (p : Position) (peer : Peer) (q : Position) :
    (citing hashSize p peer q).continuedBy (citing hashSize (p + 1) peer (q + 1)) = true := by
  have hlast : q + 1 + UInt64.ofNat (hashSize - 1) = q + UInt64.ofNat (hashSize - 1) + 1 := by
    grind
  simp [citing, single, continuedBy, Kind.continuedBy, itemwise, Group.continuedBy,
    Group.samePeer, Window.continuedBy, Window.ofPosition, hlast]

namespace Ledger

/-- A position that cites one place has the region of it. -/
theorem citing_mem_positionRegions {l : Ledger} {p : Position} {peer : Peer} {q : Position}
    (hcites : ∀ x, l.Cites p x ↔ x = ⟨peer, q⟩) (hashSize cap : Nat) :
    Region.citing hashSize p peer q ∈ l.positionRegions hashSize cap := by
  obtain ⟨hit, hp, -⟩ := (hcites _).2 rfl
  have hlocations : hit.locations.toList = [⟨peer, q⟩] := by
    refine List.perm_singleton.1 ((List.perm_ext_iff_of_nodup (nodup_members _)
      (List.nodup_singleton _)).2 fun x => ?_)
    rw [ExtTreeSet.mem_toList, ← cites_iff_of_getElem? hp, hcites, List.mem_singleton]
  refine (mem_positionRegions_iff l hashSize cap _).2 (.inl ⟨p, hit, hp, ?_⟩)
  rw [hlocations, Group.ofLocations_singleton]
  rfl

/-- What cites a place is a position of the submission. -/
theorem Valid.ne_zero_of_cites {l : Ledger} (h : l.Valid) {p : Position} {x : Location}
    (hp : l.Cites p x) : p ≠ 0 := by
  obtain ⟨hit, hhit, -⟩ := hp
  exact (Position.one_le_toNat_iff p).1 (h.inRange hhit).1

/-- Positions that cite one place each, side by side, are in one region, which cites the places. -/
theorem Valid.exists_region_of_block {l : Ledger} (h : l.Valid) {peer : Peer}
    {first origin n : Position} (hn : 0 < n)
    (hcites : ∀ k < n, ∀ x, l.Cites (first + k) x ↔ x = ⟨peer, origin + k⟩) (hashSize cap : Nat) :
    ∃ r ∈ l.regions hashSize cap, (∀ k < n, r.first ≤ first + k ∧ first + k ≤ r.last) ∧
      ∃ w : Window, r.kind = .matched [⟨peer, [w]⟩] ∧ w.first + (first - r.first) = origin := by
  have hx : ∀ k < n, Region.citing hashSize (first + k) peer (origin + k) ∈
      l.positionRegions hashSize cap := fun k hk =>
    citing_mem_positionRegions (hcites k hk) hashSize cap
  have hcount : ∀ k < n, (first + k).toNat = first.toNat + k.toNat := fun k hk =>
    Position.toNat_add_of_forall_ne_zero fun j hj =>
      h.ne_zero_of_cites ((hcites j (UInt64.lt_of_le_of_lt hj hk) _).2 rfl)
  have hcont : ∀ k, k < k + 1 → k + 1 < n → first + k < first + (k + 1) ∧
      (Region.citing hashSize (first + k) peer (origin + k)).continuedBy
        (.citing hashSize (first + (k + 1)) peer (origin + (k + 1))) = true := fun k hnext hk => by
    refine ⟨?_, ?_⟩
    · rw [UInt64.lt_iff_toNat_lt, hcount k (UInt64.lt_trans hnext hk), hcount (k + 1) hk]
      exact Nat.add_lt_add_left (UInt64.lt_iff_toNat_lt.1 hnext) _
    · rw [← UInt64.add_assoc, ← UInt64.add_assoc]
      exact Region.citing_continuedBy hashSize _ peer _
  obtain ⟨r, hr, hcovers⟩ := h.exists_region_of_continuing hn hx hcont
  have hcovers : ∀ k < n, r.first ≤ first + k ∧ first + k ≤ r.last := hcovers
  have hfirst := hcovers 0 hn
  have hstart := hx 0 hn
  rw [UInt64.add_zero] at hfirst
  rw [UInt64.add_zero, UInt64.add_zero] at hstart
  -- the slice of the region at the start of the block is the region of that position
  have hslice : r.slice hashSize (first - r.first) = .citing hashSize first peer origin := by
    have hsame : (r.slice hashSize (first - r.first)).first =
        (Region.citing hashSize first peer origin).first := by
      rw [Region.slice, Region.citing, Region.single, Region.single]
      dsimp only
      grind
    exact eq_of_pairwise (h.pairwise_positionRegions hashSize cap)
      (h.slice_mem_positionRegions hr (by grind)) hstart (by grind) (by grind)
  obtain ⟨w, hkind, hw⟩ := Kind.eq_matched_of_slice (congrArg Region.kind hslice)
  exact ⟨r, hr, hcovers, w, hkind, congrArg Window.first hw⟩

end Ledger

/-! ## Blocks of one student's work in another's -/

/-- The submissions for one gradeable, and for earlier ones. -/
structure Collection where
  label : String
  submissions : List Submission
  provided : Option ProvidedCode
  earlier : List (String × List Submission)

namespace Collection

/-- What the submissions are compared with. -/
def reference (c : Collection) (threshold : Nat) : Reference where
  current := .ofSubmissions c.label c.submissions
  provided := c.provided
  others := c.earlier.map fun e => .ofSubmissions e.1 e.2
  threshold := threshold

/-- Whether a fingerprint is no provided code and stands at two places only, of all submissions for
this gradeable and for earlier ones. -/
structure StandsOnlyAt (c : Collection) (f : Fingerprint) (a : Submission) (p : Position)
    (b : Submission) (q : Position) : Prop where
  here : a.fingerprintAt? p = some f
  there : b.fingerprintAt? q = some f
  unprovided : ∀ code ∈ c.provided, f ∉ code
  nowhereElse : ∀ d ∈ c.submissions, ∀ i, d.fingerprintAt? i = some f →
    d = a ∧ i = p ∨ d = b ∧ i = q
  neverBefore : ∀ e ∈ c.earlier, ∀ d ∈ e.2, ∀ i, d.fingerprintAt? i ≠ some f

/-- Whether all positions of a submission with a fingerprint are such. -/
def everyPlace (d : Submission) (f : Fingerprint) (P : Position → Bool) : Bool :=
  d.positions.all fun entry => entry.1 != f || P entry.2

theorem everyPlace_iff (d : Submission) (f : Fingerprint) (P : Position → Bool) :
    everyPlace d f P = true ↔ ∀ i, d.fingerprintAt? i = some f → P i = true := by
  simp only [everyPlace, List.all_eq_true, Prod.forall, Submission.mem_positions_iff,
    Bool.or_eq_true, bne_iff_ne, ne_eq]
  constructor
  · exact fun h i hi => (h f i hi).resolve_left fun hne => hne rfl
  · exact fun h g i hi => or_iff_not_imp_left.2 fun hne => h i (not_not.1 hne ▸ hi)

/-- The places of a fingerprint are looked for among the positions. -/
instance (c : Collection) (f : Fingerprint) (a : Submission) (p : Position) (b : Submission)
    (q : Position) : Decidable (c.StandsOnlyAt f a p b q) :=
  decidable_of_iff
    ((a.fingerprintAt? p = some f ∧ b.fingerprintAt? q = some f) ∧
      (∀ code ∈ c.provided, f ∉ code) ∧
      (∀ d ∈ c.submissions, everyPlace d f fun i => d = a ∧ i = p ∨ d = b ∧ i = q) ∧
      ∀ e ∈ c.earlier, ∀ d ∈ e.2, everyPlace d f fun _ => false)
    ⟨fun ⟨⟨here, there⟩, unprovided, now, before⟩ =>
      ⟨here, there, unprovided,
        fun d hd i hi => of_decide_eq_true ((everyPlace_iff d f _).1 (now d hd) i hi),
        fun e he d hd i hi =>
          Bool.false_ne_true ((everyPlace_iff d f _).1 (before e he d hd) i hi)⟩,
    fun h =>
      ⟨⟨h.here, h.there⟩, h.unprovided,
        fun d hd => (everyPlace_iff d f _).2 fun i hi => decide_eq_true (h.nowhereElse d hd i hi),
        fun e he d hd => (everyPlace_iff d f _).2 fun i hi =>
          absurd hi (h.neverBefore e he d hd i)⟩⟩

/-- A block of the submission `a` that begins at `first` and is found in the submission `b` of
another student, from `origin` on, and nowhere else. -/
structure HasCopiedBlock (c : Collection) (a b : Submission) (first origin length : Position) :
    Prop where
  mem : a ∈ c.submissions
  mem_other : b ∈ c.submissions
  students : b.student ≠ a.student
  length_pos : 0 < length
  shared : ∀ k < length, ∃ f, c.StandsOnlyAt f a (first + k) b (origin + k)

variable {c : Collection} {a b : Submission} {threshold : Nat}

/-- A fingerprint that stands at two places only is shared by two students at most. -/
theorem StandsOnlyAt.plain {f : Fingerprint} {p q : Position} (h : c.StandsOnlyAt f a p b q)
    (ht : 2 ≤ threshold) : (c.reference threshold).Plain f := by
  constructor
  · rw [← Bool.not_eq_true, Reference.isProvided, Option.any_eq_true]
    rintro ⟨code, hcode, hf⟩
    exact h.unprovided code hcode (ExtTreeSet.contains_iff_mem.1 hf)
  · have hstudents : studentsWith (c.submissions.flatMap Submission.sightings) f ⊆
        [a.student, b.student] := fun student hstudent => by
      obtain ⟨d, hd, rfl, i, hi⟩ := (Index.mem_studentsWith_sightings _ f student).1 hstudent
      rcases h.nowhereElse d hd i hi with ⟨rfl, -⟩ | ⟨rfl, -⟩ <;> simp
    have hcount : (studentsWith (c.submissions.flatMap Submission.sightings) f).length ≤ 2 :=
      (List.subperm_of_subset (List.nodup_dedup _) hstudents).length_le
    rw [← Index.studentCount_ofSightings c.label] at hcount
    exact decide_eq_false (Nat.not_lt.2 (Nat.le_trans hcount ht))

/-- The only place that hits such a fingerprint is the one in the other submission. -/
theorem StandsOnlyAt.hits_iff {f : Fingerprint} {p q : Position} (h : c.StandsOnlyAt f a p b q)
    (hb : b ∈ c.submissions) (hne : b.student ≠ a.student) (x : Location) :
    (c.reference threshold).Hits a p x ↔ x = ⟨⟨b.student, b.version, c.label⟩, q⟩ := by
  simp only [Reference.Hits, h.here, Option.some_inj, exists_eq_left',
    Reference.mem_otherBearers_iff]
  constructor
  · rintro (⟨hstudent, hx⟩ | hx)
    · obtain ⟨hlabel, d, hd, hds, hdv, hf⟩ := (Index.mem_locations_ofSubmissions _ _ f x).1 hx
      rcases h.nowhereElse d hd _ hf with ⟨rfl, -⟩ | ⟨rfl, hq⟩
      · exact absurd hds.symm hstudent
      · obtain ⟨⟨student, version, gradeable⟩, position⟩ := x
        simp only at hlabel hds hdv hq
        rw [hlabel, hds, hdv, hq]
    · obtain ⟨i, hi, hx⟩ := List.mem_flatMap.1 hx
      obtain ⟨e, he, rfl⟩ := List.mem_map.1 hi
      obtain ⟨-, d, hd, -, -, hf⟩ := (Index.mem_locations_ofSubmissions _ _ f x).1 hx
      exact absurd hf (h.neverBefore e he d hd _)
  · rintro rfl
    exact .inl ⟨hne, (Index.mem_locations_ofSubmissions _ _ f _).2 ⟨rfl, b, hb, rfl, rfl, h.there⟩⟩

/-- Where a copied block stands, a comparison cites its origin and nothing else. -/
theorem HasCopiedBlock.cites_iff {first origin length : Position}
    (h : c.HasCopiedBlock a b first origin length) (ht : 2 ≤ threshold) {hashSize : Nat}
    (hfree : ∀ m, (classify (c.reference threshold) a hashSize).IsMarked m →
      ∀ k < length, ¬Overlaps hashSize (first + k) m) {k : Position} (hk : k < length)
    (x : Location) :
    (classify (c.reference threshold) a hashSize).Cites (first + k) x ↔
      x = ⟨⟨b.student, b.version, c.label⟩, origin + k⟩ := by
  obtain ⟨f, hf⟩ := h.shared k hk
  rw [cites_classify_iff_hits, hf.hits_iff h.mem_other h.students]
  refine and_iff_left fun q hq hoverlap => ?_
  have hmarked : (classify (c.reference threshold) a hashSize).IsMarked q :=
    (Ledger.isMarked_recordAll a hashSize _ q).2 hq
  rcases Nat.eq_zero_or_pos hashSize with rfl | hsize
  · -- a hash size of zero counts as one, where a position overlaps itself only
    obtain rfl : first + k = q := by
      rw [Overlaps] at hoverlap
      rw [← UInt64.toNat_inj]
      omega
    exact unmarked_of_plain hf.here (hf.plain ht) hmarked
  · rw [Nat.max_eq_left hsize] at hoverlap
    exact hfree q hmarked k hk hoverlap

/-- A copied block does not wrap around, neither here nor where it comes from. -/
theorem HasCopiedBlock.toNat_add {first origin length : Position}
    (h : c.HasCopiedBlock a b first origin length) {k : Position} (hk : k < length) :
    (first + k).toNat = first.toNat + k.toNat ∧ (origin + k).toNat = origin.toNat + k.toNat := by
  have hshared : ∀ j ≤ k, ∃ f, c.StandsOnlyAt f a (first + j) b (origin + j) :=
    fun j hj => h.shared j (UInt64.lt_of_le_of_lt hj hk)
  constructor
  · refine Position.toNat_add_of_forall_ne_zero fun j hj => ?_
    obtain ⟨f, hf⟩ := hshared j hj
    exact Submission.ne_zero_of_fingerprintAt? hf.here
  · refine Position.toNat_add_of_forall_ne_zero fun j hj => ?_
    obtain ⟨f, hf⟩ := hshared j hj
    exact Submission.ne_zero_of_fingerprintAt? hf.there

/-- A comparison cites places where a fingerprint stands. -/
theorem position_ne_zero_of_cites {hashSize : Nat} {p : Position} {x : Location}
    (h : (classify (c.reference threshold) a hashSize).Cites p x) : x.position ≠ 0 := by
  obtain ⟨f, -, i, hi, hx⟩ := mem_locations_of_cites h
  obtain ⟨label, submissions, rfl⟩ : ∃ label submissions, i = .ofSubmissions label submissions := by
    rcases List.mem_cons.1 hi with rfl | hi
    · exact ⟨_, _, rfl⟩
    · obtain ⟨e, -, rfl⟩ := List.mem_map.1 hi
      exact ⟨_, _, rfl⟩
  obtain ⟨-, d, -, -, -, hf⟩ := (Index.mem_locations_ofSubmissions _ _ f x).1 hx
  exact Submission.ne_zero_of_fingerprintAt? hf

end Collection

/-- **Copied blocks are reported whole.**  Among any submissions, let the fingerprints of a block of
`a` be those of a block of `b`, of another student, let them stand nowhere else, now or earlier, and
be no provided code; and let no common and no provided position of `a` overlap the block.  Then, for
every threshold of two or more, every hash size and every cap, there is exactly one region of `a`
that covers any position of the block.  It covers all of it, it has one group, of `b`, with one
window, and the window maps every position of the block to where it stands in `b`. -/
theorem copied_block_reported_whole {c : Collection} {a b : Submission}
    {first origin length : Position} (h : c.HasCopiedBlock a b first origin length)
    {threshold : Nat} (ht : 2 ≤ threshold) {hashSize : Nat}
    (hfree : ∀ m, (classify (c.reference threshold) a hashSize).IsMarked m →
      ∀ k < length, ¬Overlaps hashSize (first + k) m) (cap : Nat) :
    ∃ (r : Region) (w : Window),
      (∀ q, (q ∈ (classify (c.reference threshold) a hashSize).regions hashSize cap ∧
          ∃ k < length, q.first ≤ first + k ∧ first + k ≤ q.last) ↔ q = r) ∧
        (r.first ≤ first ∧ first.toNat + length.toNat - 1 ≤ r.last.toNat) ∧
          r.kind = .matched [⟨⟨b.student, b.version, c.label⟩, [w]⟩] ∧
            ∀ k < length, w.first.toNat + (first.toNat + k.toNat - r.first.toNat) =
              origin.toNat + k.toNat := by
  have hvalid := valid_classify (c.reference threshold) a hashSize
  have hcites := fun k hk => h.cites_iff ht hfree (k := k) hk
  obtain ⟨r, hr, hcovers, w, hkind, hwindow⟩ :=
    hvalid.exists_region_of_block h.length_pos hcites hashSize cap
  refine ⟨r, w, fun q => ⟨fun ⟨hq, k, hk, hqk⟩ => hvalid.eq_of_covers hq hr hqk (hcovers k hk), ?_⟩,
    ⟨?_, ?_⟩, hkind, fun k hk => ?_⟩
  · rintro rfl
    exact ⟨hr, 0, h.length_pos, hcovers 0 h.length_pos⟩
  · have hfirst := (hcovers 0 h.length_pos).1
    rwa [UInt64.add_zero] at hfirst
  · have hpos : 0 < length.toNat := UInt64.lt_iff_toNat_lt.1 h.length_pos
    have hcount : (length - 1).toNat = length.toNat - 1 :=
      UInt64.toNat_sub_of_le length 1 (UInt64.le_iff_toNat_le.2 hpos)
    have hlast : length - 1 < length := by
      rw [UInt64.lt_iff_toNat_lt]
      omega
    have hle := UInt64.le_iff_toNat_le.1 (hcovers _ hlast).2
    rw [(h.toNat_add hlast).1] at hle
    omega
  · obtain ⟨hhere, hthere⟩ := h.toNat_add hk
    obtain ⟨hle, hle'⟩ := hcovers k hk
    -- the window does not wrap around on its way to the place, since its positions are places
    have hplace : (w.first + (first + k - r.first)).toNat =
        w.first.toNat + (first + k - r.first).toNat := by
      refine Position.toNat_add_of_forall_ne_zero fun j hj => ?_
      exact Collection.position_ne_zero_of_cites (hvalid.cites_of_mem_windows hr hkind
        List.mem_cons_self List.mem_cons_self (k := j) (by grind))
    have hword : w.first + (first + k - r.first) = origin + k := by grind
    rw [← hthere, ← hword, hplace, UInt64.toNat_sub_of_le _ _ hle, hhere]

/-- Two fingerprints that were copied, after one that the owner has a second time. -/
def copiedCollection : Collection where
  label := "hw"
  submissions :=
    [⟨"ada", 1, #[2, 10, 7, 8, 10, 3, 1]⟩, ⟨"bob", 3, #[10, 7, 8, 5]⟩, ⟨"eve", 1, #[5]⟩]
  provided := some (.ofFingerprints [1])
  earlier := [("old", [⟨"bob", 1, #[2, 5]⟩])]

/-- The block is two positions long, and its region begins one position before it. -/
theorem copied_block_reported_whole_extended :
    let a : Submission := ⟨"ada", 1, #[2, 10, 7, 8, 10, 3, 1]⟩
    let b : Submission := ⟨"bob", 3, #[10, 7, 8, 5]⟩
    let l := classify (copiedCollection.reference 2) a 2
    copiedCollection.HasCopiedBlock a b 3 2 2 ∧ 7 ∈ l.provided ∧
      ∀ q, (q ∈ l.regions 2 4 ∧ ∃ k < 2, q.first ≤ 3 + k ∧ 3 + k ≤ q.last) ↔
        q = ⟨2, 4, .matched [⟨⟨"bob", 3, "hw"⟩, [⟨1, 4⟩]⟩]⟩ := by
  intro a b l
  have hpair : ∀ k : Position, k < 2 → k = 0 ∨ k = 1 := fun k hk => by
    have hk : k.toNat < 2 := UInt64.lt_iff_toNat_lt.1 hk
    rw [← UInt64.toNat_inj, ← UInt64.toNat_inj]
    show k.toNat = 0 ∨ k.toNat = 1
    omega
  have hblock : copiedCollection.HasCopiedBlock a b 3 2 2 :=
    { mem := by decide
      mem_other := by decide
      students := by decide
      length_pos := by decide
      shared := fun k hk => by
        obtain rfl | rfl := hpair k hk
        · exact ⟨7, by decide +kernel⟩
        · exact ⟨8, by decide +kernel⟩ }
  have hcommon : l.common.toList = [] := by decide +kernel
  have hprovided : l.provided.toList = [7] := by decide +kernel
  have hfree : ∀ m, l.IsMarked m → ∀ k < 2, ¬Overlaps 2 (3 + k) m := by
    rintro m (hm | hm) k hk
    · rw [← ExtTreeSet.mem_toList, hcommon] at hm
      exact absurd hm List.not_mem_nil
    · rw [← ExtTreeSet.mem_toList, hprovided, List.mem_singleton] at hm
      obtain rfl | rfl := hpair k hk
      · rw [hm]
        decide
      · rw [hm]
        decide
  have hregion : (⟨2, 4, .matched [⟨⟨"bob", 3, "hw"⟩, [⟨1, 4⟩]⟩]⟩ : Region) ∈ l.regions 2 4 := by
    -- sorting does not compute, but there is nothing to sort
    rw [Ledger.regions, Ledger.positionRegions, List.mergeSort_of_pairwise (by decide +kernel)]
    decide +kernel
  refine ⟨hblock, ExtTreeSet.mem_toList.1 (hprovided ▸ List.mem_cons_self), ?_⟩
  obtain ⟨r, w, honly, -⟩ := copied_block_reported_whole hblock (by decide) hfree 4
  rw [(honly _).1 ⟨hregion, 0, by decide⟩]
  exact honly

end Resemblance
