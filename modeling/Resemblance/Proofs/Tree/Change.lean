import Resemblance.Proofs.Entries
import Resemblance.Proofs.Tree.Agreement

/-!
# Changes of files

To write a file and to remove one is the same thing: a place gets a new content, or none.  Which
place that is, and whether it may be changed, depends on the directories alone, and no change of a
file touches these.  So what a run does to a tree is a list of changes that can be told before the
first of them is made.

## What is here

* `Change`, `Tree.change`, `Tree.changeAll` — changes and the tree after them.
* `Tree.agreeOutside_changeAll` — a tree agrees with the changed one outside the places changed.
* `Tree.node?_changeAll`, `Tree.changeAll_eq_self` — when each place is changed once, every change
  is seen in the end, and making it again changes nothing.
* `Tree.changeAll_perm` — the order of changes at different places does not matter.
* `Tree.target` — the place of a file in a directory, if it may be changed.  `write_eq` and
  `removeIfThere_eq` say that writing and removing are changes at this place.
-/

set_option autoImplicit false
namespace Resemblance

open Std

/-- A new content of a file, or its removal. -/
structure Change where
  place : Place
  text? : Option String

/-- What stands at the place after a change. -/
def Change.node? (c : Change) : Option Node :=
  c.text?.map fun text => .file text.toUTF8

namespace Tree

/-- The tree after a change. -/
def change (t : Tree) (c : Change) : Tree :=
  match c.text? with
  | some text => t.put c.place (.file text.toUTF8)
  | none => { t with nodes := t.nodes.erase c.place }

/-- The tree after changes, one after another. -/
def changeAll (t : Tree) (cs : List Change) : Tree :=
  cs.foldl change t

theorem changeAll_append (t : Tree) (cs ds : List Change) :
    t.changeAll (cs ++ ds) = (t.changeAll cs).changeAll ds :=
  List.foldl_append

/-! ## One change -/

theorem node?_eq_getElem? (t : Tree) {place : Place} (h : place ≠ []) :
    t.node? place = t.nodes[place]? := by
  rw [node?]
  exact h

theorem start_change (t : Tree) (c : Change) : (t.change c).start = t.start := by
  unfold change
  split <;> rfl

theorem getElem?_nodes_change (t : Tree) (c : Change) (place : Place) :
    (t.change c).nodes[place]? = if c.place = place then c.node? else t.nodes[place]? := by
  unfold change
  split
  · rename_i text h
    rw [put, ExtTreeMap.getElem?_insert, Change.node?, h]
    simp only [Std.compare_eq_iff_eq]
    rfl
  · rename_i h
    rw [ExtTreeMap.getElem?_erase, Change.node?, h]
    simp only [Std.compare_eq_iff_eq]
    rfl

/-- No place of a directory is the outermost one. -/
theorem ne_nil_of_isDirectoryAt {t : Tree} {place : Place} (h : t.isDirectoryAt place = false) :
    place ≠ [] := by
  rintro rfl
  exact absurd h (by simp [isDirectoryAt, node?])

theorem node?_change {t : Tree} {c : Change} (h : t.isDirectoryAt c.place = false) (place : Place) :
    (t.change c).node? place = if c.place = place then c.node? else t.node? place := by
  cases place with
  | nil => rw [if_neg (ne_nil_of_isDirectoryAt h), node?, node?]
  | cons name outer =>
    rw [node?_eq_getElem? _ (by simp), node?_eq_getElem? _ (by simp), getElem?_nodes_change]

/-- A change is one of files, so the directories stay. -/
theorem agreeOutside_change {t : Tree} {c : Change} (h : t.isDirectoryAt c.place = false) :
    AgreeOutside (· = c.place) t (t.change c) where
  start := start_change t c
  directory place := by
    by_cases hplace : c.place = place
    · subst hplace
      rw [h, isDirectoryAt, node?_change h, if_pos rfl, Change.node?]
      cases c.text? <;> rfl
    · rw [isDirectoryAt, isDirectoryAt, node?_change h, if_neg hplace]
  node place hplace := by
    rw [node?_change h, if_neg (Ne.symm hplace)]

/-- Trees with the same start and the same entries are the same. -/
theorem ext_getElem? {t u : Tree} (hstart : t.start = u.start)
    (hnodes : ∀ place : Place, t.nodes[place]? = u.nodes[place]?) : t = u := by
  cases t
  cases u
  rw [Tree.mk.injEq]
  exact ⟨hstart, ExtTreeMap.ext_getElem? fun {place} => hnodes place⟩

/-- What a place has already is no change. -/
theorem change_eq_self {t : Tree} {c : Change} (h : t.isDirectoryAt c.place = false)
    (hnode : t.node? c.place = c.node?) : t.change c = t := by
  refine ext_getElem? (start_change t c) fun place => ?_
  rw [getElem?_nodes_change]
  split
  · rename_i hplace
    rw [← hplace, ← hnode, node?_eq_getElem? t (ne_nil_of_isDirectoryAt h)]
  · rfl

/-- Changes at different places can be made in either order. -/
theorem change_comm (t : Tree) {c d : Change} (h : c.place ≠ d.place) :
    (t.change c).change d = (t.change d).change c := by
  refine ext_getElem? (by simp only [start_change]) fun place => ?_
  simp only [getElem?_nodes_change]
  by_cases hc : c.place = place
  · have hd : d.place ≠ place := fun heq => h (hc.trans heq.symm)
    rw [if_neg hd, if_pos hc, if_pos hc]
  · rw [if_neg hc, if_neg hc]

/-! ## Many changes -/

/-- Whether changes are made to files only, and to none of them twice. -/
structure Changeable (t : Tree) (cs : List Change) : Prop where
  file : ∀ c ∈ cs, t.isDirectoryAt c.place = false
  once : cs.Pairwise fun c d => c.place ≠ d.place

theorem agreeOutside_changeAll {t : Tree} :
    ∀ {cs : List Change}, (∀ c ∈ cs, t.isDirectoryAt c.place = false) →
      AgreeOutside (fun place => ∃ c ∈ cs, place = c.place) t (t.changeAll cs)
  | [], _ => .refl _ t
  | c :: cs, h => by
    have hone := agreeOutside_change (h c List.mem_cons_self)
    have hrest : AgreeOutside (fun place => ∃ c ∈ cs, place = c.place) (t.change c)
        ((t.change c).changeAll cs) := agreeOutside_changeAll fun d hd => by
      rw [hone.directory]
      exact h d (List.mem_cons_of_mem c hd)
    refine (hone.mono ?_).trans (hrest.mono ?_)
    · rintro place rfl
      exact ⟨c, List.mem_cons_self, rfl⟩
    · rintro place ⟨d, hd, rfl⟩
      exact ⟨d, List.mem_cons_of_mem c hd, rfl⟩

/-- **Every change is seen in the end.** -/
theorem node?_changeAll {t : Tree} :
    ∀ {cs : List Change}, t.Changeable cs → ∀ c ∈ cs, (t.changeAll cs).node? c.place = c.node?
  | d :: cs, h, c, hc => by
    obtain ⟨hne, honce⟩ := List.pairwise_cons.1 h.once
    have hone := agreeOutside_change (h.file d List.mem_cons_self)
    have hrest : (t.change d).Changeable cs := by
      refine ⟨fun e he => ?_, honce⟩
      rw [hone.directory]
      exact h.file e (List.mem_cons_of_mem d he)
    show ((t.change d).changeAll cs).node? c.place = c.node?
    rcases List.mem_cons.1 hc with rfl | hc
    · -- no later change is at the same place
      have hlater : ¬∃ e ∈ cs, c.place = e.place := fun ⟨e, he, heq⟩ => hne e he heq
      rw [(agreeOutside_changeAll hrest.file).node c.place hlater,
        node?_change (h.file c List.mem_cons_self), if_pos rfl]
    · exact node?_changeAll hrest c hc

/-- A place at which two trees hold the same, and where the same changes are made, holds the same in
the end. -/
theorem node?_changeAll_congr {t u : Tree} {cs ds : List Change} (hcs : t.Changeable cs)
    (hds : u.Changeable ds) {place : Place} (hnode : u.node? place = t.node? place)
    (h : ∀ c : Change, c.place = place → (c ∈ cs ↔ c ∈ ds)) :
    (u.changeAll ds).node? place = (t.changeAll cs).node? place := by
  by_cases hex : ∃ c ∈ cs, c.place = place
  · obtain ⟨c, hc, rfl⟩ := hex
    rw [node?_changeAll hcs c hc, node?_changeAll hds c ((h c rfl).1 hc)]
  · have hcs' : ¬∃ c ∈ cs, place = c.place := fun ⟨c, hc, heq⟩ => hex ⟨c, hc, heq.symm⟩
    have hds' : ¬∃ c ∈ ds, place = c.place := fun ⟨c, hc, heq⟩ =>
      hex ⟨c, (h c heq.symm).2 hc, heq.symm⟩
    rw [(agreeOutside_changeAll hcs.file).node place hcs',
      (agreeOutside_changeAll hds.file).node place hds', hnode]

theorem changeAll_eq_self {t : Tree} :
    ∀ {cs : List Change}, (∀ c ∈ cs, t.isDirectoryAt c.place = false ∧ t.node? c.place = c.node?) →
      t.changeAll cs = t
  | [], _ => rfl
  | c :: cs, h => by
    obtain ⟨hfile, hnode⟩ := h c List.mem_cons_self
    show (t.change c).changeAll cs = t
    rw [change_eq_self hfile hnode]
    exact changeAll_eq_self fun d hd => h d (List.mem_cons_of_mem c hd)

/-- **Making the same changes again changes nothing.** -/
theorem changeAll_changeAll {t : Tree} {cs : List Change} (h : t.Changeable cs) :
    (t.changeAll cs).changeAll cs = t.changeAll cs := by
  refine changeAll_eq_self fun c hc => ⟨?_, node?_changeAll h c hc⟩
  rw [(agreeOutside_changeAll h.file).directory]
  exact h.file c hc

/-- **The order of changes at different places does not matter.** -/
theorem changeAll_perm (t : Tree) {cs ds : List Change} (hperm : cs.Perm ds)
    (hcs : cs.Pairwise fun c d => c.place ≠ d.place) : t.changeAll cs = t.changeAll ds := by
  induction hperm generalizing t with
  | nil => rfl
  | cons c _ ih => exact ih (t.change c) (List.pairwise_cons.1 hcs).2
  | swap c d cs =>
    have hne : d.place ≠ c.place := (List.pairwise_cons.1 hcs).1 c List.mem_cons_self
    show ((t.change d).change c).changeAll cs = ((t.change c).change d).changeAll cs
    rw [change_comm t hne]
  | trans hperm _ ih ih' =>
    have hds := (hperm.pairwise_iff fun {c d} hcd => Ne.symm hcd).1 hcs
    exact (ih t hcs).trans (ih' t hds)

/-! ## Writing and removing -/

/-- Whether a path leads to a directory at a place. -/
def LeadsTo (t : Tree) (directory : Path) (place : Place) : Prop :=
  t.follow directory = .ok place ∧ t.isDirectoryAt place = true

theorem exists_leadsTo {t : Tree} {directory : Path} (h : t.isDirectory directory = true) :
    ∃ place, t.LeadsTo directory place := by
  obtain ⟨place, hlocate, hplace⟩ := isDirectory_iff.1 h
  exact ⟨place, (locate_eq_ok_iff.1 hlocate).2, hplace⟩

theorem AgreeOutside.leadsTo {P : Place → Prop} {t u : Tree} (h : AgreeOutside P t u)
    {directory : Path} {place : Place} (hd : t.LeadsTo directory place) :
    u.LeadsTo directory place :=
  ⟨h.follow hd.1 hd.2, (h.directory place).trans hd.2⟩

/-- The path of a file in a directory, when the text of the path is one. -/
theorem LeadsTo.locate_child {t : Tree} {directory : Path} {place : Place} {name : String}
    (hd : t.LeadsTo directory place) (htext : checkPath (directory / name).text = .ok ())
    (hname : name.utf8ByteSize ≤ nameLimit) :
    t.locate (directory / name) =
      if (t.node? (name :: place)).isSome then .ok (name :: place) else .error .notFound := by
  have hdirectory : (!t.isDirectoryAt place) = false := by simp [hd.2]
  rw [locate, follow_child, base_eq_ok hd.1, htext]
  simp only [bind, Except.bind]
  rw [enter, hdirectory, if_neg Bool.false_ne_true, if_neg (Nat.not_lt.2 hname)]

/-- Bytes encode a text if they are those of the text. -/
theorem fromUTF8?_eq_some_iff {content : ByteArray} {text : String} :
    String.fromUTF8? content = some text ↔ content = text.toUTF8 := by
  rw [String.fromUTF8?]
  refine ⟨fun h => ?_, ?_⟩
  · split at h
    · exact congrArg String.toUTF8 (Option.some_inj.1 h)
    · exact absurd h (by simp)
  · rintro rfl
    have hvalid : text.toUTF8.IsValidUTF8 := text.isValidUTF8
    rw [dif_pos hvalid]
    rfl

/-- A file that holds a text can be read. -/
theorem readText_of_locate {t : Tree} {path : Path} {place : Place} {text : String}
    (hlocate : t.locate path = .ok place)
    (hnode : t.node? place = some (.file text.toUTF8)) : t.readText path = .ok text := by
  rw [readText, hlocate]
  simp only [bind, Except.bind, hnode, fromUTF8?_eq_some_iff.2 rfl]

theorem LeadsTo.readText_eq {t : Tree} {directory : Path} {place : Place} {name text : String}
    (hd : t.LeadsTo directory place) (htext : checkPath (directory / name).text = .ok ())
    (hname : name.utf8ByteSize ≤ nameLimit)
    (hnode : t.node? (name :: place) = some (.file text.toUTF8)) :
    t.readText (directory / name) = .ok text := by
  refine readText_of_locate ?_ hnode
  rw [hd.locate_child htext hname, hnode, if_pos (by rfl)]

/-- The place of a file in a directory, if it may be changed. -/
def target (t : Tree) (directory : Path) (name : String) : Except FileError Place := do
  let place ← t.locateDirectory directory name
  if t.isDirectoryAt (name :: place) then .error .isDirectory else .ok (name :: place)

/-- A file may be changed in a directory where none of that name is a directory. -/
theorem target_eq_ok_iff {t : Tree} {directory : Path} {name : String} {q : Place} :
    t.target directory name = .ok q ↔
      checkPath (directory / name).text = .ok () ∧ ∃ place, t.base directory = .ok place ∧
        t.isDirectoryAt place = true ∧ t.isDirectoryAt (name :: place) = false ∧
          q = name :: place := by
  rw [target, bind_eq_ok_iff, locateDirectory_eq]
  constructor
  · rintro ⟨place, hplace, hq⟩
    obtain ⟨_, htext, hplace⟩ := bind_eq_ok_iff.1 hplace
    obtain ⟨outer, hbase, hplace⟩ := bind_eq_ok_iff.1 hplace
    split at hplace
    · next hdirectory =>
      obtain rfl := Except.ok.inj hplace
      split at hq
      · exact absurd hq (by simp)
      · next hfile =>
        exact ⟨htext, outer, hbase, hdirectory, Bool.eq_false_iff.2 hfile, (Except.ok.inj hq).symm⟩
    · exact absurd hplace (by simp)
  · rintro ⟨htext, place, hbase, hdirectory, hfile, rfl⟩
    refine ⟨place, ?_, by rw [hfile]; rfl⟩
    rw [htext, hbase]
    simp only [bind, Except.bind, hdirectory, if_true]

/-- In a directory, the text of the path has to be one and there may be no directory of that
name. -/
theorem target_eq {t : Tree} {directory : Path} {place : Place} (h : t.LeadsTo directory place)
    (name : String) :
    t.target directory name = (do
      checkPath (directory / name).text
      if t.isDirectoryAt (name :: place) then .error .isDirectory else .ok (name :: place)) := by
  rw [target, locateDirectory_eq, base_eq_ok h.1]
  cases checkPath (directory / name).text with
  | error e => rfl
  | ok _ =>
    simp only [bind, Except.bind]
    rw [if_pos h.2]

theorem target_eq_ok {t : Tree} {directory : Path} {place q : Place}
    (h : t.LeadsTo directory place) {name : String} (hq : t.target directory name = .ok q) :
    checkPath (directory / name).text = .ok () ∧ t.isDirectoryAt (name :: place) = false ∧
      q = name :: place := by
  obtain ⟨htext, outer, hbase, -, hfile, rfl⟩ := target_eq_ok_iff.1 hq
  obtain rfl : place = outer := Except.ok.inj ((base_eq_ok h.1).symm.trans hbase)
  exact ⟨htext, hfile, rfl⟩

theorem AgreeOutside.target_eq {P : Place → Prop} {t u : Tree} (h : AgreeOutside P t u)
    {directory : Path} {place : Place} (hd : t.LeadsTo directory place) (name : String) :
    u.target directory name = t.target directory name := by
  rw [Tree.target_eq hd, Tree.target_eq (h.leadsTo hd), h.directory]

theorem write_eq (t : Tree) (directory : Path) (name text : String) :
    t.write directory name text =
      (t.target directory name).map fun place => t.change ⟨place, some text⟩ := by
  rw [write, target]
  cases t.locateDirectory directory name with
  | error e => rfl
  | ok place =>
    simp only [bind, Except.bind]
    split <;> rfl

/-- Removes a file from a directory, if it is there. -/
def removeIfThere (t : Tree) (path : Path) : Except FileError Tree :=
  match t.remove path with
  | .error .notFound => .ok t
  | result => result

/-- In a directory, removing a file that may be missing is a change. -/
theorem removeIfThere_eq {t : Tree} {directory : Path} {place : Place}
    (h : t.LeadsTo directory place) {name : String} (hname : name.utf8ByteSize ≤ nameLimit) :
    t.removeIfThere (directory / name) =
      (t.target directory name).map fun place => t.change ⟨place, none⟩ := by
  rw [Tree.target_eq h]
  cases htext : checkPath (directory / name).text with
  | error e =>
    have hlocate : t.locate (directory / name) = .error e := by
      rw [locate, htext]
      rfl
    rw [removeIfThere, remove, hlocate]
    -- a text that is no path is not reported as missing
    have he : e ≠ .notFound := by
      rintro rfl
      unfold checkPath at htext
      split at htext
      · simp at htext
      · split at htext <;> simp at htext
    cases e <;> first | exact absurd rfl he | rfl
  | ok _ =>
    rw [removeIfThere, remove, h.locate_child htext hname]
    simp only [bind, Except.bind]
    cases hnode : t.node? (name :: place) with
    | none =>
      have hfile : t.isDirectoryAt (name :: place) = false := by rw [isDirectoryAt, hnode]
      rw [if_neg (by simp), hfile, if_neg Bool.false_ne_true]
      have hsame := change_eq_self (c := ⟨name :: place, none⟩) hfile hnode
      rw [Except.map, hsame]
    | some node =>
      simp only [Option.isSome_some, if_true]
      cases hfile : t.isDirectoryAt (name :: place) with
      | true => rfl
      | false => rfl

end Tree
end Resemblance
