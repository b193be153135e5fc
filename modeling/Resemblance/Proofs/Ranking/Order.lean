import Mathlib.Data.Set.Defs
import Resemblance.Proofs.Ranking.Best
import Resemblance.Proofs.Ranking.Peers

/-!
# The order of rankings

Two standings are compared by their scores if both have one, and otherwise by their percentages.
Which of the two it is depends on both, so the comparison is no order of all standings.  It is an
order of standings of one kind, and no ranking mixes them.

## What is here

* `Standing.value` and `Standing.lexOrder` — the value of a standing, and the order of standings by
  values, students, versions and gradeables; it is the comparison of two standings of one kind
  (`order_eq_lexOrder`).
* `Uniform` and `OrderedBy` — standings of one kind, and what an order has to obey.
* `Ranked` — the only arrangement of some standings that ascends strictly.  Sorting gives it when
  all standings are of one kind and no two are equal (`ranked_sort`).
* `order_lawful` — the comparison obeys its laws wherever it is used.
-/

set_option autoImplicit false
namespace Resemblance

open Std

namespace Standing

/-! ## The comparison -/

/-- The value by which a standing is compared with others of its kind. -/
def value (x : Standing) : Double :=
  x.score.getD x.percent

/-- Standings by value, greatest first, and then by student, version and gradeable. -/
def lexOrder : Standing → Standing → Ordering :=
  compareLex (fun a b => compareOn value b a)
    (compareLex (compareOn student) (compareLex (compareOn version) (compareOn gradeable)))

instance : TransCmp lexOrder :=
  inferInstanceAs (TransCmp
    (compareLex (fun a b => compareOn value b a)
      (compareLex (compareOn student) (compareLex (compareOn version) (compareOn gradeable)))))

theorem gradeableOrder_eq_compare (a b : Option String) : gradeableOrder a b = compare a b := by
  cases a <;> cases b <;> rfl

theorem order_eq (a b : Standing) :
    a.order b = (compare (values a b).2 (values a b).1).then
      ((compare a.student b.student).then
        ((compare a.version b.version).then (compare a.gradeable b.gradeable))) := by
  rw [← gradeableOrder_eq_compare]
  rfl

/-- Standings of one kind are compared by their values. -/
theorem order_eq_lexOrder {a b : Standing} (h : a.score.isSome = b.score.isSome) :
    a.order b = lexOrder a b := by
  have hvalues : values a b = (a.value, b.value) := by
    unfold values value
    cases ha : a.score <;> cases hb : b.score <;> simp_all
  rw [order_eq, hvalues]
  rfl

/-- The other way round, two standings are compared by the same values. -/
theorem values_comm (a b : Standing) : values b a = (values a b).swap := by
  unfold values
  cases a.score <;> cases b.score <;> rfl

/-- The comparison of any two standings is turned round with them. -/
theorem order_comm (a b : Standing) : b.order a = (a.order b).swap := by
  rw [order_eq, order_eq, values_comm]
  simp only [Ordering.swap_then, ← OrientedCmp.eq_swap, Prod.fst_swap, Prod.snd_swap]

theorem lexOrder_total (a b : Standing) : (lexOrder a b).isLE || (lexOrder b a).isLE := by
  rw [@OrientedCmp.eq_swap _ lexOrder _ b a]
  cases lexOrder a b <;> rfl

theorem lexOrder_eq_eq_iff (a b : Standing) :
    lexOrder a b = .eq ↔ a.value.bits = b.value.bits ∧ a.student = b.student ∧
      a.version = b.version ∧ a.gradeable = b.gradeable := by
  simp only [lexOrder, compareLex_eq_eq, compareOn, Std.compare_eq_iff_eq,
    Double.compare_eq_eq_iff]
  exact and_congr_left fun _ => eq_comm

theorem lexOrder_eq_lt_of_place {a b : Standing} (h : b.value.place < a.value.place) :
    lexOrder a b = .lt :=
  Ordering.then_eq_lt.2 (.inl (Double.compare_eq_lt_iff.2 h))

/-! ## Standings of one kind -/

/-- Standings of one kind: all of them have a score, or none has. -/
def Uniform (xs : Set Standing) : Prop :=
  (∀ x ∈ xs, x.score.isSome = true) ∨ ∀ x ∈ xs, x.score.isSome = false

/-- The laws of a sort order.  It is transitive and total, and standings are equal only if their
values have the same bits and they have the same student, version and gradeable.  Greater values
come first. -/
structure Lawful (xs : Set Standing) : Prop where
  trans : ∀ a ∈ xs, ∀ b ∈ xs, ∀ c ∈ xs, (a.order b).isLE = true → (b.order c).isLE = true →
    (a.order c).isLE = true
  total : ∀ a ∈ xs, ∀ b ∈ xs, (a.order b).isLE = true ∨ (b.order a).isLE = true
  eq_iff : ∀ a ∈ xs, ∀ b ∈ xs, a.order b = .eq ↔
    a.value.bits = b.value.bits ∧ a.student = b.student ∧ a.version = b.version ∧
      a.gradeable = b.gradeable
  greatest_first : ∀ a ∈ xs, ∀ b ∈ xs, b.value.place < a.value.place → a.order b = .lt

namespace Uniform

variable {xs : Set Standing}

theorem order_eq (h : Uniform xs) {a b : Standing} (ha : a ∈ xs) (hb : b ∈ xs) :
    a.order b = lexOrder a b :=
  order_eq_lexOrder <| h.elim (fun h => (h a ha).trans (h b hb).symm)
    fun h => (h a ha).trans (h b hb).symm

/-- The comparison is a sort order of standings of one kind. -/
theorem lawful (h : Uniform xs) : Lawful xs where
  trans a ha b hb c hc := by
    rw [h.order_eq ha hb, h.order_eq hb hc, h.order_eq ha hc]
    exact TransCmp.isLE_trans
  total a ha b hb := by
    rw [h.order_eq ha hb, h.order_eq hb ha, ← Bool.or_eq_true]
    exact lexOrder_total a b
  eq_iff a ha b hb := by
    rw [h.order_eq ha hb]
    exact lexOrder_eq_eq_iff a b
  greatest_first a ha b hb hplace := by
    rw [h.order_eq ha hb]
    exact lexOrder_eq_lt_of_place hplace

end Uniform

/-! ## Sorted rankings -/

/-- A list that ascends strictly, and is the only arrangement of its standings that does. -/
structure Ranked (xs : List Standing) : Prop where
  ascending : xs.Pairwise fun a b => a.order b = .lt
  unique : ∀ ys : List Standing, ys.Perm xs → ys.Pairwise (fun a b => a.order b = .lt) → ys = xs

/-- Every list that ascends strictly is the only one of its standings. -/
theorem ranked_of_ascending {xs : List Standing}
    (h : xs.Pairwise fun a b => a.order b = .lt) : Ranked xs where
  ascending := h
  unique ys hperm hys := by
    refine hperm.eq_of_pairwise (fun a b _ _ hab hba => ?_) hys h
    rw [order_comm, hab] at hba
    exact absurd hba (by decide)

/-- Standings of one kind are sorted by their values. -/
theorem sort_eq {xs : List Standing} (h : Uniform {x | x ∈ xs}) :
    sort xs = xs.mergeSort fun a b => (lexOrder a b).isLE := by
  have hmap : (sort xs).map id = (xs.map id).mergeSort fun a b => (lexOrder a b).isLE :=
    List.map_mergeSort fun a ha b hb => congrArg Ordering.isLE (h.order_eq ha hb)
  rwa [List.map_id, List.map_id] at hmap

theorem sort_perm (xs : List Standing) : (sort xs).Perm xs :=
  List.mergeSort_perm xs _

/-- Standings of one kind are sorted strictly when no two of them are equal. -/
theorem ranked_sort {xs : List Standing} (h : Uniform {x | x ∈ sort xs})
    (hdistinct : (sort xs).Pairwise fun a b => a.order b ≠ .eq) : Ranked (sort xs) := by
  have hxs : Uniform {x | x ∈ xs} := by simpa only [(sort_perm xs).mem_iff] using h
  have hsorted : (sort xs).Pairwise fun a b => (lexOrder a b).isLE = true := by
    rw [sort_eq hxs]
    exact List.pairwise_mergeSort (fun _ _ _ => TransCmp.isLE_trans) lexOrder_total xs
  refine ranked_of_ascending ((hsorted.and hdistinct).imp_of_mem fun {a b} ha hb hab => ?_)
  rw [← h.order_eq ha hb] at hab
  exact (Ordering.isLE_iff_eq_lt_or_eq_eq.1 hab.1).resolve_right hab.2

/-- Standings that are compared as equal are of the same work. -/
theorem eq_of_order_eq_eq {a b : Standing} (h : a.order b = .eq) :
    a.student = b.student ∧ a.version = b.version ∧ a.gradeable = b.gradeable := by
  simp only [order_eq, Ordering.then_eq_eq, Std.compare_eq_iff_eq] at h
  exact h.2

end Standing

/-! ## Both rankings -/

open Standing

theorem rankOverall_perm (summaries : List Summary) (weights : Weights) :
    (rankOverall summaries weights).Perm
      ((bestVersions summaries).values.map (·.standing weights (mostMatched summaries))) :=
  sort_perm _

/-- All standings of the overall ranking have a score. -/
theorem isSome_score_of_mem_rankOverall {summaries : List Summary} {weights : Weights}
    {x : Standing} (hx : x ∈ rankOverall summaries weights) : x.score.isSome = true := by
  obtain ⟨s, -, rfl⟩ := List.mem_map.1 ((rankOverall_perm summaries weights).mem_iff.1 hx)
  rfl

/-- The overall ranking has one standing for each student. -/
theorem nodup_students_rankOverall (summaries : List Summary) (weights : Weights) :
    ((rankOverall summaries weights).map student).Nodup := by
  rw [((rankOverall_perm summaries weights).map student).nodup_iff, List.map_map]
  exact map_student_bestVersions summaries ▸ ExtTreeMap.nodup_keys

/-- The overall ranking is the only arrangement of its standings. -/
theorem ranked_rankOverall (summaries : List Summary) (weights : Weights) :
    Ranked (rankOverall summaries weights) := by
  refine ranked_sort (.inl fun x hx => isSome_score_of_mem_rankOverall hx) ?_
  have hstudents := List.pairwise_map.1 (nodup_students_rankOverall summaries weights)
  exact hstudents.imp fun hne heq => hne (eq_of_order_eq_eq heq).1

namespace Ledger

/-- No standing of a ranking of peers has a score. -/
theorem isSome_score_of_mem_rankPeers {l : Ledger} {x : Standing} (hx : x ∈ l.rankPeers) :
    x.score.isSome = false := by
  obtain ⟨peer, n, -, rfl⟩ := (l.mem_rankPeers_iff x).1 hx
  rfl

/-- The ranking of peers is the only arrangement of its standings. -/
theorem ranked_rankPeers (l : Ledger) : Ranked l.rankPeers := by
  refine ranked_sort (.inr fun x hx => l.isSome_score_of_mem_rankPeers hx) ?_
  refine (List.pairwise_map.1 l.nodup_peers_rankPeers).imp fun {a b} hne heq => hne ?_
  obtain ⟨hstudent, hversion, hgradeable⟩ := eq_of_order_eq_eq heq
  rw [peer?, peer?, hstudent, hversion, hgradeable]

end Ledger

/-- **The comparison is a sort order wherever it is used.**  The comparison of two standings is
turned round with them.  On standings of one kind, whatever their doubles, it is transitive and
total, finds equal only what has the same value, student, version and gradeable, and puts greater
values first.  The overall ranking is all scored and the rankings of peers are not scored at all,
and each ranking is the only arrangement of its standings that ascends strictly. -/
theorem order_lawful :
    (∀ a b : Standing, b.order a = (a.order b).swap) ∧
      (∀ xs : Set Standing, Uniform xs → Lawful xs) ∧
      (∀ (summaries : List Summary) (weights : Weights),
        (∀ x ∈ rankOverall summaries weights, x.score.isSome = true) ∧
          Ranked (rankOverall summaries weights)) ∧
      ∀ l : Ledger, (∀ x ∈ l.rankPeers, x.score.isSome = false) ∧ Ranked l.rankPeers :=
  ⟨order_comm, fun _ h => h.lawful,
    fun summaries weights =>
      ⟨fun _ hx => isSome_score_of_mem_rankOverall hx, ranked_rankOverall summaries weights⟩,
    fun l => ⟨fun _ hx => l.isSome_score_of_mem_rankPeers hx, l.ranked_rankPeers⟩⟩

/-- Standings of both kinds may follow each other in a circle. -/
example :
    let a : Standing := ⟨"ann", 1, none, 10, some 0.75⟩
    let b : Standing := ⟨"bob", 1, none, 30, some 0.25⟩
    let c : Standing := ⟨"cyd", 1, none, 20, none⟩
    a.order b = .lt ∧ b.order c = .lt ∧ c.order a = .lt := by
  decide +kernel

end Resemblance
