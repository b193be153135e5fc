import Mathlib.Data.List.SplitBy
import Resemblance.Region.Merge

/-!
# Merging, run by run

Merging never compares two regions of its input.  It compares the next one with a region that has
grown by all those before it.  That is no difference: at its end a grown region looks like the last
region it has taken in, and only the end decides what continues a region.  So the input may be cut
into runs beforehand, and each run becomes one region.

## What is here

* `Kind.peers`, `Kind.starts`, `Kind.ends` — what a kind shows of its groups and windows.
  Continuing and growing are told by these alone (`Kind.continuedBy_iff`, `Kind.ends_grow`).
* `Region.BeginsLike`, `Region.EndsLike` — two regions agree at the front or at the back; a region
  is determined by both (`eq_of_alike`).
* `Region.mergeInto_append_of_isChain` — a whole run is taken in.
* `Region.merge_eq_iff` — the merged list is one region for each run.
-/

set_option autoImplicit false
namespace Resemblance

/-! ## Itemwise relations as equations -/

/-- A relation that compares one value of each item compares the lists of these values. -/
theorem itemwise_iff_map_eq {α β : Type} {related : α → α → Bool} {f g : α → β}
    (h : ∀ a b, related a b = true ↔ g b = f a) :
    ∀ as bs : List α, itemwise related as bs = true ↔ bs.map g = as.map f
  | [], [] => by simp [itemwise]
  | [], _ :: _ => by simp [itemwise]
  | _ :: _, [] => by simp [itemwise]
  | a :: as, b :: bs => by
    rw [itemwise, Bool.and_eq_true, h, itemwise_iff_map_eq h as bs, List.map_cons, List.map_cons,
      List.cons.injEq]

/-- Two values of each item may be compared one after the other. -/
theorem map_pair_eq_iff {α β γ : Type} (f f' : α → β) (g g' : α → γ) :
    ∀ as bs : List α,
      bs.map (fun b => (f' b, g' b)) = as.map (fun a => (f a, g a)) ↔
        bs.map f' = as.map f ∧ bs.map g' = as.map g
  | [], [] => by simp
  | [], _ :: _ => by simp
  | _ :: _, [] => by simp
  | a :: as, b :: bs => by
    simp only [List.map_cons, List.cons.injEq, Prod.mk.injEq, map_pair_eq_iff f f' g g' as bs]
    tauto

/-! ## What a kind shows at its ends -/

namespace Group

/-- Where the windows begin. -/
def starts (g : Group) : List Position :=
  g.windows.map Window.first

/-- Where the windows end. -/
def ends (g : Group) : List Position :=
  g.windows.map Window.last

theorem eq_of_ends {g h : Group} (hpeer : g.peer = h.peer) (hstarts : g.starts = h.starts)
    (hends : g.ends = h.ends) : g = h := by
  obtain ⟨peer, windows⟩ := g
  obtain ⟨peer', windows'⟩ := h
  have hpairs : windows.map (fun w => (w.first, w.last)) =
      windows'.map (fun w => (w.first, w.last)) :=
    (map_pair_eq_iff _ _ _ _ windows' windows).2 ⟨hstarts, hends⟩
  have hwindows : windows = windows' := by
    refine List.map_injective_iff.2 (fun v w hvw => ?_) hpairs
    cases v
    cases w
    simpa using hvw
  rw [Group.mk.injEq]
  exact ⟨hpeer, hwindows⟩

theorem continuedBy_iff (before after : Group) :
    before.continuedBy after = true ↔
      (after.peer, after.ends) = (before.peer, before.ends.map (· + 1)) := by
  have hwindows : itemwise Window.continuedBy before.windows after.windows = true ↔
      after.ends = before.ends.map (· + 1) := by
    rw [itemwise_iff_map_eq (f := fun w => w.last + 1) (g := Window.last), ends, ends, List.map_map]
    · rfl
    · intro v w
      rw [Window.continuedBy, beq_iff_eq]
  rw [continuedBy, Bool.and_eq_true, samePeer, beq_iff_eq, hwindows, Prod.mk.injEq]
  exact and_congr_left fun _ => eq_comm

theorem starts_grow (g : Group) : g.grow.starts = g.starts := by
  rw [starts, grow, List.map_map]
  rfl

theorem ends_grow (g : Group) : g.grow.ends = g.ends.map (· + 1) := by
  rw [ends, grow, ends, List.map_map, List.map_map]
  rfl

end Group

namespace Kind

/-- The groups of a match.  The other kinds have none. -/
def groups : Kind → List Group
  | .matched others => others
  | _ => []

/-- The peers of the groups. -/
def peers (k : Kind) : List Peer :=
  k.groups.map Group.peer

/-- Where the windows of each group begin. -/
def starts (k : Kind) : List (List Position) :=
  k.groups.map Group.starts

/-- Where the windows of each group end. -/
def ends (k : Kind) : List (List Position) :=
  k.groups.map Group.ends

theorem eq_of_groups {k l : Kind} (htag : k.tag = l.tag) (h : k.groups = l.groups) : k = l := by
  cases k <;> cases l <;> simp_all [tag, groups]

theorem eq_of_ends {k l : Kind} (htag : k.tag = l.tag) (hpeers : k.peers = l.peers)
    (hstarts : k.starts = l.starts) (hends : k.ends = l.ends) : k = l := by
  have htriples : k.groups.map (fun g => (g.peer, g.starts, g.ends)) =
      l.groups.map (fun g => (g.peer, g.starts, g.ends)) :=
    (map_pair_eq_iff _ _ _ _ l.groups k.groups).2
      ⟨hpeers, (map_pair_eq_iff _ _ _ _ l.groups k.groups).2 ⟨hstarts, hends⟩⟩
  refine eq_of_groups htag (List.map_injective_iff.2 (fun g h hgh => ?_) htriples)
  simp only [Prod.mk.injEq] at hgh
  exact Group.eq_of_ends hgh.1 hgh.2.1 hgh.2.2

/-- **What continues a kind is told by its type, its peers and the ends of its windows.** -/
theorem continuedBy_iff (before after : Kind) :
    before.continuedBy after = true ↔
      after.tag = before.tag ∧ after.peers = before.peers ∧
        after.ends = before.ends.map (List.map (· + 1)) := by
  cases before with
  | matched others =>
    cases after with
    | matched laters =>
      have hgroups := itemwise_iff_map_eq Group.continuedBy_iff others laters
      rw [map_pair_eq_iff] at hgroups
      rw [continuedBy, hgroups, ends, ends, List.map_map]
      exact (and_iff_right rfl).symm
    | common => simp [continuedBy, tag]
    | provided => simp [continuedBy, tag]
  | common => cases after <;> simp [continuedBy, tag, peers, ends, groups]
  | provided => cases after <;> simp [continuedBy, tag, peers, ends, groups]

theorem groups_grow (k : Kind) : k.grow.groups = k.groups.map Group.grow := by
  cases k <;> rfl

theorem tag_grow (k : Kind) : k.grow.tag = k.tag := by
  cases k <;> rfl

theorem peers_grow (k : Kind) : k.grow.peers = k.peers := by
  rw [peers, groups_grow, List.map_map]
  rfl

theorem starts_grow (k : Kind) : k.grow.starts = k.starts := by
  rw [starts, groups_grow, List.map_map]
  exact List.map_congr_left fun g _ => g.starts_grow

theorem ends_grow (k : Kind) : k.grow.ends = k.ends.map (List.map (· + 1)) := by
  rw [ends, groups_grow, ends, List.map_map, List.map_map]
  exact List.map_congr_left fun g _ => g.ends_grow

end Kind

/-! ## Regions that agree at one end -/

namespace Region

/-- Two regions begin alike: at the same position, with the same type and peers, and window for
window at the same position of the peer. -/
structure BeginsLike (r a : Region) : Prop where
  first : r.first = a.first
  tag : r.kind.tag = a.kind.tag
  peers : r.kind.peers = a.kind.peers
  starts : r.kind.starts = a.kind.starts

/-- Two regions end alike. -/
structure EndsLike (r b : Region) : Prop where
  last : r.last = b.last
  tag : r.kind.tag = b.kind.tag
  peers : r.kind.peers = b.kind.peers
  ends : r.kind.ends = b.kind.ends

theorem BeginsLike.refl (r : Region) : r.BeginsLike r := ⟨rfl, rfl, rfl, rfl⟩

theorem EndsLike.refl (r : Region) : r.EndsLike r := ⟨rfl, rfl, rfl, rfl⟩

/-- Both ends of a region determine it. -/
theorem eq_of_alike {q r a b : Region} (hqa : q.BeginsLike a) (hqb : q.EndsLike b)
    (hra : r.BeginsLike a) (hrb : r.EndsLike b) : q = r := by
  have hkind : q.kind = r.kind :=
    Kind.eq_of_ends (hqa.tag.trans hra.tag.symm) (hqa.peers.trans hra.peers.symm)
      (hqa.starts.trans hra.starts.symm) (hqb.ends.trans hrb.ends.symm)
  have hfirst : q.first = r.first := hqa.first.trans hra.first.symm
  have hlast : q.last = r.last := hqb.last.trans hrb.last.symm
  cases q
  cases r
  rw [Region.mk.injEq]
  exact ⟨hfirst, hlast, hkind⟩

/-- Growing changes nothing at the front. -/
theorem BeginsLike.grow {r a : Region} (h : r.BeginsLike a) : r.grow.BeginsLike a where
  first := h.first
  tag := (Kind.tag_grow r.kind).trans h.tag
  peers := (Kind.peers_grow r.kind).trans h.peers
  starts := (Kind.starts_grow r.kind).trans h.starts

/-- The back of a region decides what continues it. -/
theorem EndsLike.continuedBy_eq {r b : Region} (h : r.EndsLike b) (c : Region) :
    r.continuedBy c = b.continuedBy c := by
  rw [Bool.eq_iff_iff, continuedBy, continuedBy, Bool.and_eq_true, Bool.and_eq_true,
    Kind.continuedBy_iff, Kind.continuedBy_iff, h.last, h.tag, h.peers, h.ends]

/-- A region that grows ends like what continues it. -/
theorem endsLike_grow {r c : Region} (h : r.continuedBy c = true) : r.grow.EndsLike c := by
  rw [continuedBy, Bool.and_eq_true, beq_iff_eq, Kind.continuedBy_iff] at h
  obtain ⟨hlast, htag, hpeers, hends⟩ := h
  exact ⟨hlast.symm, (Kind.tag_grow r.kind).trans htag.symm,
    (Kind.peers_grow r.kind).trans hpeers.symm, (Kind.ends_grow r.kind).trans hends.symm⟩

/-! ## Runs -/

/-- The region of a run: it begins like the first region of the run and ends like the last. -/
def Joins (run : List Region) (r : Region) : Prop :=
  ∃ a ∈ run.head?, ∃ b ∈ run.getLast?, r.BeginsLike a ∧ r.EndsLike b

theorem Joins.eq {run : List Region} {q r : Region} (hq : Joins run q) (hr : Joins run r) :
    q = r := by
  obtain ⟨a, ha, b, hb, hqa, hqb⟩ := hq
  obtain ⟨a', ha', b', hb', hra, hrb⟩ := hr
  obtain rfl : a = a' := Option.mem_unique ha ha'
  obtain rfl : b = b' := Option.mem_unique hb hb'
  exact eq_of_alike hqa hqb hra hrb

/-- **A run is taken in as a whole.**  The open region ends like `b`, which stands before the rest
of the run. -/
theorem mergeInto_append_of_isChain {rest : List Region} :
    ∀ (run : List Region) {opened b : Region}, opened.EndsLike b →
      (b :: run).IsChain (fun x y => x.continuedBy y = true) →
      (∀ c ∈ (b :: run).getLast?, ∀ d ∈ rest.head?, c.continuedBy d = false) →
        ∃ r, mergeInto opened (run ++ rest) = r :: merge rest ∧ r.BeginsLike opened ∧
          ∃ c ∈ (b :: run).getLast?, r.EndsLike c
  | [], opened, b, hends, _, hcut => by
    refine ⟨opened, ?_, .refl opened, b, rfl, hends⟩
    cases rest with
    | nil => rfl
    | cons d rest =>
      have hstop : opened.continuedBy d = false := by
        rw [hends.continuedBy_eq]
        exact hcut b rfl d rfl
      rw [List.nil_append, mergeInto, hstop]
      rfl
  | c :: run, opened, b, hends, hchain, hcut => by
    obtain ⟨hbc, hrun⟩ := List.isChain_cons_cons.1 hchain
    have hcont : opened.continuedBy c = true := (hends.continuedBy_eq c).trans hbc
    rw [List.getLast?_cons_cons] at hcut ⊢
    obtain ⟨r, hr, hbegins, hlast⟩ :=
      mergeInto_append_of_isChain run (endsLike_grow hcont) hrun hcut
    refine ⟨r, ?_, ?_, hlast⟩
    · rw [List.cons_append, mergeInto, if_pos hcont, hr]
    · -- what begins like the grown region begins like the open one
      have hgrow := (BeginsLike.refl opened).grow
      exact ⟨hbegins.first.trans hgrow.first, hbegins.tag.trans hgrow.tag,
        hbegins.peers.trans hgrow.peers, hbegins.starts.trans hgrow.starts⟩

/-- Runs that are cut where nothing continues become one region each. -/
theorem forall₂_joins_merge : ∀ runs : List (List Region), [] ∉ runs →
    (∀ run ∈ runs, run.IsChain fun x y => x.continuedBy y = true) →
    (runs.IsChain fun x y => ∃ hx hy, (x.getLast hx).continuedBy (y.head hy) = false) →
      List.Forall₂ Joins runs (merge runs.flatten)
  | [], _, _, _ => List.Forall₂.nil
  | [] :: _, hne, _, _ => absurd List.mem_cons_self hne
  | (a :: run) :: runs, hne, hchain, hcut => by
    have hne' : [] ∉ runs := fun h => hne (List.mem_cons_of_mem _ h)
    have hrest := forall₂_joins_merge runs hne'
      (fun x hx => hchain x (List.mem_cons_of_mem _ hx)) hcut.tail
    have hstop : ∀ c ∈ (a :: run).getLast?, ∀ d ∈ runs.flatten.head?,
        c.continuedBy d = false := by
      intro c hc d hd
      cases runs with
      | nil => exact absurd hd (by simp)
      | cons next runs =>
        obtain ⟨⟨_, hy, hfalse⟩, -⟩ := List.isChain_cons_cons.1 hcut
        obtain ⟨d', next, rfl⟩ := List.exists_cons_of_ne_nil hy
        obtain rfl : d' = d := by simpa using hd
        obtain rfl : (a :: run).getLast (by simp) = c := by
          simpa [List.getLast?_eq_some_getLast] using hc
        exact hfalse
    obtain ⟨r, hr, hbegins, c, hc, hends⟩ :=
      mergeInto_append_of_isChain run (EndsLike.refl a) (hchain _ List.mem_cons_self) hstop
    rw [List.flatten_cons, List.cons_append, merge, hr]
    exact .cons ⟨a, rfl, c, hc, hbegins, hends⟩ hrest

/-- **Merging makes one region of every run.**  For any list of regions, sorted or not, cut between
two neighbours exactly where the second, as it stands in the list, does not continue the first: the
merged list has one region for each run, in order.  It has the first position, the type, the peers
and the starts of the windows of the first region of the run, and the last position and the ends of
the windows of the last one; and these say all there is to know of it. -/
theorem merge_eq_iff (rs merged : List Region) :
    merge rs = merged ↔ List.Forall₂ Joins (rs.splitBy continuedBy) merged := by
  have hruns : List.Forall₂ Joins (rs.splitBy continuedBy) (merge rs) := by
    have h := forall₂_joins_merge (rs.splitBy continuedBy)
      (List.nil_notMem_splitBy continuedBy rs)
      (fun run hrun => List.isChain_of_mem_splitBy hrun)
      (List.isChain_getLast_head_splitBy continuedBy rs)
    rwa [List.flatten_splitBy] at h
  constructor
  · rintro rfl
    exact hruns
  · intro hmerged
    have hunique : Relator.RightUnique Joins := fun _ _ _ hq hr => hq.eq hr
    exact List.right_unique_forall₂' hunique hruns hmerged

/-- Two regions of a peer are merged, a third one has the same type only. -/
example :
    merge [single 4 (.matched [⟨⟨"bob", 1, "hw"⟩, [⟨10, 12⟩]⟩]),
        single 5 (.matched [⟨⟨"bob", 1, "hw"⟩, [⟨11, 13⟩]⟩]),
        single 6 (.matched [⟨⟨"bob", 1, "hw"⟩, [⟨30, 32⟩]⟩])] =
      [⟨4, 5, .matched [⟨⟨"bob", 1, "hw"⟩, [⟨10, 13⟩]⟩]⟩,
        ⟨6, 6, .matched [⟨⟨"bob", 1, "hw"⟩, [⟨30, 32⟩]⟩]⟩] := by
  decide

end Region
end Resemblance
