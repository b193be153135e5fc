import Resemblance.Peer

/-!
# The bearers of a fingerprint

The students who have a fingerprint are kept in order, each with the places where their submissions
have it.  Submissions are mostly read in the order of their students, so a place that is added
mostly belongs to the last student; only when it does not the student is searched for, and gets an
entry of their own if there is none.

## What is here

* `Occurrence` — a position in one of a student's versions.
* `Bearers` — the students who have one fingerprint, each once and in order, with the occurrences in
  the order in which they were added.
* `Bearers.add` — one more occurrence.  However it is found, there is only one place where it can go
  (`exists_addOccurrence_eq`), and nothing but its own student changes (`occurrences_add`).
* `Bearers.without` — the bearers other than an owner; `Bearers.locations` — all occurrences.
-/

set_option autoImplicit false
namespace Resemblance

open Std

/-- A place of a fingerprint in the submissions of one student. -/
structure Occurrence where
  version : Version
  position : Position
  deriving DecidableEq

/-- The occurrences of one fingerprint, by student. -/
@[ext] structure Bearers where
  toList : List (String × Array Occurrence)
  sorted : toList.Pairwise fun a b => compare a.1 b.1 = .lt

namespace Bearers

variable {entries : List (String × Array Occurrence)} {student : String}

/-! ## Adding an occurrence -/

/-- An entry with one more occurrence. -/
def extend (o : Occurrence) (entry : String × Array Occurrence) : String × Array Occurrence :=
  (entry.1, entry.2.push o)

/-- The place of a student among entries in order, whether there is an entry of the student or
not. -/
def placeOf (entries : List (String × Array Occurrence)) (student : String) : Nat :=
  entries.findIdx fun entry => (compare entry.1 student).isGE

/-- Entries with one more occurrence of a student, after all others of the same student.  The last
entry is tried first. -/
def addOccurrence (entries : List (String × Array Occurrence)) (student : String)
    (o : Occurrence) : List (String × Array Occurrence) :=
  if entries.getLast?.any (·.1 == student) then entries.modify (entries.length - 1) (extend o)
  else
    let i := placeOf entries student
    if entries[i]?.any (·.1 == student) then entries.modify i (extend o)
    else entries.take i ++ (student, #[o]) :: entries.drop i

theorem ne_of_compare_lt {a b : String} (h : compare a b = .lt) : a ≠ b := by
  rintro rfl
  rw [compare_self] at h
  exact absurd h (by decide)

/-- Entries parted at a student: what comes before, the occurrences of the student, none if there is
no entry, and what comes after. -/
structure Parts (entries : List (String × Array Occurrence)) (student : String)
    (before : List (String × Array Occurrence)) (places : Array Occurrence)
    (after : List (String × Array Occurrence)) : Prop where
  eq : entries = before ++ (student, places) :: after ∨ entries = before ++ after ∧ places = #[]
  before_lt : ∀ entry ∈ before, compare entry.1 student = .lt
  lt_after : ∀ entry ∈ after, compare student entry.1 = .lt

/-- Entries are parted at an entry of the student. -/
theorem parts_of_getElem? (sorted : entries.Pairwise fun a b => compare a.1 b.1 = .lt) {i : Nat}
    {places : Array Occurrence} (h : entries[i]? = some (student, places)) :
    Parts entries student (entries.take i) places (entries.drop (i + 1)) := by
  obtain ⟨hlt, hentry⟩ := List.getElem?_eq_some_iff.1 h
  have hsplit : entries = entries.take i ++ (student, places) :: entries.drop (i + 1) := by
    rw [← hentry, ← List.drop_eq_getElem_cons hlt, List.take_append_drop]
  rw [hsplit] at sorted
  obtain ⟨-, hafter, hbefore⟩ := List.pairwise_append.1 sorted
  exact ⟨.inl hsplit, fun entry h => hbefore entry h _ List.mem_cons_self,
    (List.pairwise_cons.1 hafter).1⟩

/-- One more occurrence for an entry of the student. -/
theorem modify_eq_of_getElem? {i : Nat} {places : Array Occurrence}
    (h : entries[i]? = some (student, places)) (o : Occurrence) :
    entries.modify i (extend o) =
      entries.take i ++ (student, places.push o) :: entries.drop (i + 1) := by
  obtain ⟨hlt, hentry⟩ := List.getElem?_eq_some_iff.1 h
  rw [List.modify_eq_take_cons_drop hlt, hentry, extend]

theorem exists_of_any {found : Option (String × Array Occurrence)}
    (h : found.any (·.1 == student) = true) : ∃ places, found = some (student, places) := by
  obtain ⟨⟨name, places⟩, hsome, hname⟩ := (Option.any_eq_true _ _).1 h
  obtain rfl : name = student := by simpa using hname
  exact ⟨places, hsome⟩

/-- What comes before the place of a student is smaller. -/
theorem lt_of_mem_take_placeOf {entry : String × Array Occurrence}
    (h : entry ∈ entries.take (placeOf entries student)) : compare entry.1 student = .lt := by
  obtain ⟨i, hi, rfl⟩ := List.mem_take_iff_getElem.1 h
  have hnot := List.not_of_lt_findIdx (Nat.lt_of_lt_of_le hi (Nat.min_le_left _ _))
  exact Ordering.isGE_eq_false.1 hnot

/-- The entry at the place of a student is the one of the student, or greater. -/
theorem lt_getElem_placeOf (hlt : placeOf entries student < entries.length)
    (hne : entries[placeOf entries student].1 ≠ student) :
    compare student entries[placeOf entries student].1 = .lt := by
  have hge : (compare entries[placeOf entries student].1 student).isGE = true :=
    List.findIdx_getElem (w := hlt)
  rw [Ordering.isGE_iff_eq_gt_or_eq_eq] at hge
  refine OrientedCmp.lt_of_gt (hge.resolve_right fun heq => hne ?_)
  exact Std.compare_eq_iff_eq.1 heq

/-- Entries without one of the student are parted at the place of the student. -/
theorem parts_placeOf (sorted : entries.Pairwise fun a b => compare a.1 b.1 = .lt)
    (hnone : ¬entries[placeOf entries student]?.any (·.1 == student) = true) :
    Parts entries student (entries.take (placeOf entries student)) #[]
      (entries.drop (placeOf entries student)) where
  eq := .inr ⟨(List.take_append_drop _ _).symm, rfl⟩
  before_lt _ := lt_of_mem_take_placeOf
  lt_after entry h := by
    have hlt : placeOf entries student < entries.length := by
      have hlength := List.length_pos_of_mem h
      rw [List.length_drop] at hlength
      exact Nat.lt_of_sub_pos hlength
    have hne : entries[placeOf entries student].1 ≠ student := fun heq => hnone (by
      rw [List.getElem?_eq_getElem hlt, Option.any_some, heq]
      exact beq_self_eq_true student)
    have hfirst := lt_getElem_placeOf hlt hne
    have hrest := sorted.sublist (List.drop_sublist (placeOf entries student) entries)
    rw [List.drop_eq_getElem_cons hlt] at h hrest
    obtain rfl | h := List.mem_cons.1 h
    · exact hfirst
    · exact TransCmp.lt_trans hfirst ((List.pairwise_cons.1 hrest).1 entry h)

/-- **An occurrence goes to the place of its student**, whichever way this place is found. -/
theorem exists_addOccurrence_eq (sorted : entries.Pairwise fun a b => compare a.1 b.1 = .lt)
    (student : String) (o : Occurrence) :
    ∃ before places after, Parts entries student before places after ∧
      addOccurrence entries student o = before ++ (student, places.push o) :: after := by
  unfold addOccurrence
  split
  · next hlast =>
    rw [List.getLast?_eq_getElem?] at hlast
    obtain ⟨places, hplaces⟩ := exists_of_any hlast
    exact ⟨_, _, _, parts_of_getElem? sorted hplaces, modify_eq_of_getElem? hplaces o⟩
  · dsimp only
    split
    · next hfound =>
      obtain ⟨places, hplaces⟩ := exists_of_any hfound
      exact ⟨_, _, _, parts_of_getElem? sorted hplaces, modify_eq_of_getElem? hplaces o⟩
    · next hnone => exact ⟨_, _, _, parts_placeOf sorted hnone, by simp⟩

namespace Parts

variable {before after : List (String × Array Occurrence)} {places : Array Occurrence}

/-- An entry of the student fits between what comes before and after. -/
theorem sorted_insert (h : Parts entries student before places after)
    (sorted : entries.Pairwise fun a b => compare a.1 b.1 = .lt) (places' : Array Occurrence) :
    (before ++ (student, places') :: after).Pairwise fun a b => compare a.1 b.1 = .lt := by
  have hsub : (before ++ after).Sublist entries := by
    obtain rfl | ⟨rfl, -⟩ := h.eq
    · exact (List.Sublist.refl before).append (List.sublist_cons_self _ after)
    · exact List.Sublist.refl _
  obtain ⟨hbefore, hafter, hacross⟩ := List.pairwise_append.1 (sorted.sublist hsub)
  refine List.pairwise_append.2 ⟨hbefore, List.pairwise_cons.2 ⟨h.lt_after, hafter⟩, ?_⟩
  intro a ha b hb
  obtain rfl | hb := List.mem_cons.1 hb
  · exact h.before_lt a ha
  · exact hacross a ha b hb

/-- What comes before and after is of other students. -/
theorem lookup_eq_none (h : Parts entries student before places after) :
    before.lookup student = none ∧ after.lookup student = none := by
  constructor
  · exact List.lookup_eq_none_iff.2 fun entry hentry =>
      bne_iff_ne.2 (ne_of_compare_lt (h.before_lt entry hentry)).symm
  · exact List.lookup_eq_none_iff.2 fun entry hentry =>
      bne_iff_ne.2 (ne_of_compare_lt (h.lt_after entry hentry))

/-- The occurrences of the student are those found between. -/
theorem lookup_self (h : Parts entries student before places after) :
    (entries.lookup student).getD #[] = places := by
  obtain ⟨hbefore, hafter⟩ := h.lookup_eq_none
  obtain rfl | ⟨rfl, rfl⟩ := h.eq
  · rw [List.lookup_append, hbefore, List.lookup_cons_self]
    rfl
  · rw [List.lookup_append, hbefore, hafter]
    rfl

/-- Another student is found before or after. -/
theorem lookup_of_ne (h : Parts entries student before places after) {other : String}
    (hne : student ≠ other) (places' : Array Occurrence) :
    (before ++ (student, places') :: after).lookup other = entries.lookup other := by
  have hother : (other == student) = false := beq_false_of_ne hne.symm
  obtain rfl | ⟨rfl, -⟩ := h.eq
  · simp [List.lookup_append, List.lookup_cons, hother]
  · simp [List.lookup_append, List.lookup_cons, hother]

end Parts

/-! ## Bearers -/

instance : EmptyCollection Bearers := ⟨⟨[], .nil⟩⟩

/-- Adds an occurrence after all others of the same student. -/
def add (b : Bearers) (student : String) (o : Occurrence) : Bearers where
  toList := addOccurrence b.toList student o
  sorted := by
    obtain ⟨before, places, after, hparts, heq⟩ := exists_addOccurrence_eq b.sorted student o
    rw [heq]
    exact hparts.sorted_insert b.sorted _

/-- The bearers without one of them. -/
def erase (b : Bearers) (owner : String) : Bearers where
  toList := b.toList.filter fun entry => entry.1 != owner
  sorted := b.sorted.filter _

/-- Whether there are no bearers. -/
def isEmpty (b : Bearers) : Bool :=
  b.toList.isEmpty

/-- How many bearers there are. -/
def size (b : Bearers) : Nat :=
  b.toList.length

/-- The bearers by name. -/
def students (b : Bearers) : List String :=
  b.toList.map Prod.fst

/-- The occurrences in the submissions of a student. -/
def occurrences (b : Bearers) (student : String) : Array Occurrence :=
  (b.toList.lookup student).getD #[]

/-- All occurrences as locations in a gradeable, by student and then in the order in which they were
added. -/
def locations (b : Bearers) (label : String) : List Location :=
  b.toList.flatMap fun entry =>
    entry.2.toList.map fun o => ⟨⟨entry.1, o.version, label⟩, o.position⟩

/-! ## Bearers seen through the look-up -/

variable (b : Bearers)

@[simp] theorem occurrences_empty (student : String) : occurrences ∅ student = #[] := rfl

@[simp] theorem students_empty : students ∅ = [] := rfl

theorem exists_toList_add_eq (student : String) (o : Occurrence) :
    ∃ before places after, Parts b.toList student before places after ∧
      (b.add student o).toList = before ++ (student, places.push o) :: after :=
  exists_addOccurrence_eq b.sorted student o

/-- Nothing but the occurrences of the student changes. -/
theorem occurrences_add (student other : String) (o : Occurrence) :
    (b.add student o).occurrences other =
      if student = other then (b.occurrences other).push o else b.occurrences other := by
  obtain ⟨before, places, after, hparts, heq⟩ := b.exists_toList_add_eq student o
  rw [occurrences, occurrences, heq]
  split
  · next h =>
    subst h
    rw [List.lookup_append, hparts.lookup_eq_none.1, List.lookup_cons_self, hparts.lookup_self]
    rfl
  · next h => rw [hparts.lookup_of_ne h]

/-- Nobody but the student becomes a bearer. -/
theorem mem_students_add (student other : String) (o : Occurrence) :
    other ∈ (b.add student o).students ↔ student = other ∨ other ∈ b.students := by
  obtain ⟨before, places, after, hparts, heq⟩ := b.exists_toList_add_eq student o
  rw [students, students, heq]
  simp only [List.map_append, List.map_cons, List.mem_append, List.mem_cons]
  obtain h | ⟨h, -⟩ := hparts.eq <;>
    simp only [h, List.map_append, List.map_cons, List.mem_append, List.mem_cons] <;> grind

/-- Every bearer is counted once. -/
theorem nodup_students : b.students.Nodup :=
  List.pairwise_map.2 (b.sorted.imp ne_of_compare_lt)

/-- The entries are the bearers with their occurrences. -/
theorem occurrences_of_mem {student : String} {places : Array Occurrence}
    (h : (student, places) ∈ b.toList) : b.occurrences student = places := by
  obtain ⟨i, hi⟩ := List.mem_iff_getElem?.1 h
  exact (parts_of_getElem? b.sorted hi).lookup_self

end Bearers
end Resemblance
