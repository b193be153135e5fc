import Mathlib.Data.List.Nodup
import Std.Data.ExtTreeMap
import Std.Data.ExtTreeSet

/-!
# The entries of a map

Insertion and erasure in a map, seen through its list of entries.  Where entries are only counted
their order does not matter, so both laws are permutations.  The values of a map are read from the
same list.
-/

set_option autoImplicit false
namespace Resemblance

open Std

variable {α β : Type} [Ord α] [TransOrd α] [LawfulEqOrd α]

omit [LawfulEqOrd α] in
theorem nodup_entries (t : ExtTreeMap α β) : t.toList.Nodup := by
  refine t.distinct_keys_toList.imp fun {a b} h hab => h ?_
  rw [hab]
  exact ReflCmp.compare_self

omit [LawfulEqOrd α] in
theorem nodup_members (t : ExtTreeSet α) : t.toList.Nodup :=
  t.distinct_toList.imp fun {a b} h hab => h (by rw [hab, compare_self])

omit [LawfulEqOrd α] in
/-- The keys of a map are those at which something is found. -/
theorem mem_iff_exists_getElem? {t : ExtTreeMap α β} {k : α} : k ∈ t ↔ ∃ v, t[k]? = some v := by
  rw [ExtTreeMap.mem_iff_isSome_getElem?, Option.isSome_iff_exists]

omit [LawfulEqOrd α] in
/-- The values of a map stand in its list of entries. -/
theorem values_eq_map_toList (t : ExtTreeMap α β) : t.values = t.toList.map Prod.snd := by
  obtain ⟨⟨t⟩⟩ := t
  induction t using Quotient.inductionOn with
  | _ t =>
    show t.inner.values = (DTreeMap.Internal.Impl.Const.toList t.inner).map Prod.snd
    rw [DTreeMap.Internal.Impl.values_eq_map_snd,
      DTreeMap.Internal.Impl.Const.toList_eq_toListModel_map, List.map_map]
    rfl

theorem mem_values_iff {t : ExtTreeMap α β} {v : β} : v ∈ t.values ↔ ∃ k : α, t[k]? = some v := by
  rw [values_eq_map_toList, List.mem_map, Prod.exists]
  simp only [ExtTreeMap.mem_toList_iff_getElem?_eq_some, exists_eq_right]

/-- Values that tell their keys stand in the order of the keys. -/
theorem map_values_eq_keys {t : ExtTreeMap α β} {key : β → α}
    (h : ∀ (k : α) (v : β), t[k]? = some v → key v = k) : t.values.map key = t.keys := by
  rw [values_eq_map_toList, ← ExtTreeMap.map_fst_toList_eq_keys, List.map_map]
  refine List.map_congr_left fun ⟨k, v⟩ hkv => h k v ?_
  exact ExtTreeMap.mem_toList_iff_getElem?_eq_some.1 hkv

/-- The entries of a map are the one of a key it has and the entries without that key. -/
theorem entries_perm_erase {t : ExtTreeMap α β} {k : α} {v : β} (h : t[k]? = some v) :
    t.toList.Perm ((k, v) :: (t.erase k).toList) := by
  refine (List.perm_ext_iff_of_nodup (nodup_entries t) ?_).2 fun ⟨a, b⟩ => ?_
  · rw [List.nodup_cons]
    refine ⟨fun hmem => ?_, nodup_entries _⟩
    rw [ExtTreeMap.mem_toList_iff_getElem?_eq_some, ExtTreeMap.getElem?_erase_self] at hmem
    exact absurd hmem (by simp)
  · rw [List.mem_cons, ExtTreeMap.mem_toList_iff_getElem?_eq_some,
      ExtTreeMap.mem_toList_iff_getElem?_eq_some, ExtTreeMap.getElem?_erase, Prod.mk.injEq]
    by_cases hka : k = a
    · subst hka
      simp [h, eq_comm]
    · simp [hka, Ne.symm hka]

/-- The entries after an insertion are the new one and those of the other keys. -/
theorem entries_insert_perm (t : ExtTreeMap α β) (k : α) (v : β) :
    (t.insert k v).toList.Perm ((k, v) :: (t.erase k).toList) := by
  have herase : (t.insert k v).erase k = t.erase k := by
    refine ExtTreeMap.ext_getElem? fun a => ?_
    rw [ExtTreeMap.getElem?_erase, ExtTreeMap.getElem?_erase, ExtTreeMap.getElem?_insert]
    by_cases h : k = a <;> simp [h]
  rw [← herase]
  exact entries_perm_erase ExtTreeMap.getElem?_insert_self

theorem erase_eq_self {t : ExtTreeMap α β} {k : α} (h : t[k]? = none) : t.erase k = t := by
  refine ExtTreeMap.ext_getElem? fun a => ?_
  rw [ExtTreeMap.getElem?_erase]
  by_cases hka : k = a
  · rw [← hka, h, ite_self]
  · simp [hka]

end Resemblance
