import Resemblance.Proofs.Json.RoundTrip
import Resemblance.Region.Format

/-!
# Reports that are read back

A report of regions is read back as the same regions: the text of the report is a written JSON
value, every record holds its fields under the names that are looked up, and nothing in it is nested
as deeply as the reader refuses.

## What is here

* `Value.fields?_ofMembers` — the fields of a record that was written.
* `Value.position?_ofNat` — positions are read back, whatever they are.
* `Window.ofJson?_toJson`, `Group.ofJson?_toJson`, `Region.ofJson?_toJson` — record by record.
* `Region.ofReport?_report` — a whole report.
-/

set_option autoImplicit false
namespace Resemblance

open Json

namespace Json

/-! ## Plain values -/

theorem written_ofNat (n : Nat) : Written (.ofNat n) := .number n

theorem written_ofString (s : String) : Written (.ofString s) := .string s

theorem written_ofMembers {members : List (String × Value)}
    (h : ∀ member ∈ members, Written member.2) : Written (.ofMembers members) := .object h

namespace Value

@[simp] theorem text?_ofString (s : String) : (ofString s).text? = some s :=
  Text.toString?_ofString s

theorem nat?_ofNat {bound n : Nat} (h : n < bound) : (ofNat n).nat? bound = some n := by
  rw [ofNat, nat?, Number.toNat?_ofNat, Option.filter_some, decide_eq_true h, if_pos rfl]

@[simp] theorem position?_ofNat (p : Position) : (ofNat p.toNat).position? = some p := by
  rw [position?, nat?_ofNat p.toNat_lt_size, Option.map_some, UInt64.ofNat_toNat]

theorem list?_array_map {α : Type} {item? : Value → Option α} {toJson : α → Value} :
    ∀ {items : List α}, (∀ a ∈ items, item? (toJson a) = some a) →
      (Value.array (items.map toJson)).list? item? = some items
  | [], _ => rfl
  | a :: items, h => by
    have hrest := list?_array_map fun x hx => h x (List.mem_cons_of_mem a hx)
    show ((a :: items).map toJson).mapM item? = _
    rw [List.map_cons, List.mapM_cons, h a List.mem_cons_self]
    show (((items.map toJson).mapM item?).bind fun as => some (a :: as)) = _
    rw [show (items.map toJson).mapM item? = some items from hrest]
    rfl

/-! ## Records -/

theorem keyed?_map_named : ∀ members : List (String × Value),
    keyed? (members.map named) = some members
  | [] => rfl
  | (key, value) :: members => by
    have hrest := keyed?_map_named members
    rw [keyed?] at hrest ⊢
    rw [List.map_cons, List.mapM_cons, hrest]
    simp [named]

/-- The fields of a record that was written. -/
theorem fields?_ofMembers (members : List (String × Value)) (names : List String) :
    (ofMembers members).fields? names = names.mapM (unique? members) := by
  show (do
    let members ← keyed? (members.map named)
    names.mapM (unique? members)) = _
  rw [keyed?_map_named]
  rfl

/-! ## Values taken over -/

theorem arePlain_iff (levels : Nat) (items : List Value) :
    arePlain levels items = true ↔ ∀ item ∈ items, item.isPlain levels = true := by
  induction items with
  | nil => simp [arePlain]
  | cons item items ih => simp [arePlain, ih]

theorem membersPlain_map_named (levels : Nat) (members : List (String × Value)) :
    membersPlain levels (members.map named) = true ↔
      ∀ member ∈ members, member.2.isPlain levels = true := by
  induction members with
  | nil => simp [membersPlain]
  | cons member members ih => simp [membersPlain, named, ih]

theorem isPlain_ofNat {n : Nat} (h : n < UInt64.size) (levels : Nat) :
    (ofNat n).isPlain levels = true := by
  rw [ofNat, isPlain, Number.isInRange, Number.toNat?_ofNat]
  simp [h]

theorem isPlain_ofString (s : String) (levels : Nat) : (ofString s).isPlain levels = true := by
  rw [ofString, isPlain, Text.toString?_ofString]
  rfl

theorem isPlain_array {levels : Nat} {items : List Value}
    (h : ∀ item ∈ items, item.isPlain levels = true) :
    (Value.array items).isPlain (levels + 1) = true := by
  rw [isPlain]
  exact (arePlain_iff levels items).2 h

theorem isPlain_ofMembers {levels : Nat} {members : List (String × Value)}
    (h : ∀ member ∈ members, member.2.isPlain levels = true) :
    (ofMembers members).isPlain (levels + 1) = true := by
  rw [ofMembers, isPlain]
  exact (membersPlain_map_named levels members).2 h

end Value
end Json

/-! ## Windows -/

namespace Window

theorem written_toJson (w : Window) : Written w.toJson :=
  written_ofMembers (by simp [written_ofNat])

theorem isPlain_toJson (w : Window) (levels : Nat) : w.toJson.isPlain (levels + 1) = true :=
  Value.isPlain_ofMembers (by
    simp [Value.isPlain_ofNat w.first.toNat_lt_size, Value.isPlain_ofNat w.last.toNat_lt_size])

/-- A window is read back. -/
theorem ofJson?_toJson (w : Window) : ofJson? w.toJson = some w := by
  have hfields : w.toJson.fields? ["start", "end"] =
      some [some (.ofNat w.first.toNat), some (.ofNat w.last.toNat)] := by
    rw [toJson, Value.fields?_ofMembers]
    rfl
  simp only [ofJson?, hfields, Option.bind_eq_bind, Option.bind_some, Value.position?_ofNat]

end Window

/-! ## Groups -/

namespace Group

theorem written_toJson (g : Group) : Written g.toJson := by
  have hwindows : Written (.array (g.windows.map Window.toJson)) :=
    .array (List.forall_mem_map.2 fun w _ => w.written_toJson)
  exact written_ofMembers (by simp [written_ofNat, written_ofString, hwindows])

theorem isPlain_toJson (g : Group) (levels : Nat) : g.toJson.isPlain (levels + 3) = true := by
  have hwindows : (Value.array (g.windows.map Window.toJson)).isPlain (levels + 2) = true :=
    Value.isPlain_array (List.forall_mem_map.2 fun w _ => w.isPlain_toJson levels)
  have hversion : g.peer.version.toNat < UInt64.size :=
    lt_trans g.peer.version.toNat_lt (by decide)
  exact Value.isPlain_ofMembers (by
    simp [Value.isPlain_ofNat hversion, Value.isPlain_ofString, hwindows])

/-- A group is read back. -/
theorem ofJson?_toJson (g : Group) : ofJson? g.toJson = some g := by
  have hfields : g.toJson.fields? ["username", "version", "source_gradeable",
      "matching_positions"] = some [some (.ofString g.peer.student),
        some (.ofNat g.peer.version.toNat), some (.ofString g.peer.gradeable),
          some (.array (g.windows.map Window.toJson))] := by
    rw [toJson, Value.fields?_ofMembers]
    rfl
  have hwindows : (Value.array (g.windows.map Window.toJson)).list? Window.ofJson? =
      some g.windows := Value.list?_array_map fun w _ => w.ofJson?_toJson
  simp only [ofJson?, hfields, Option.bind_eq_bind, Option.bind_some, Value.text?_ofString,
    Value.nat?_ofNat g.peer.version.toNat_lt, UInt32.ofNat_toNat, hwindows]

end Group

/-! ## Regions -/

namespace Kind

theorem written_members (k : Kind) : ∀ member ∈ k.members, Written member.2 := by
  cases k with
  | matched others =>
    have hothers : Written (.array (others.map Group.toJson)) :=
      .array (List.forall_mem_map.2 fun g _ => g.written_toJson)
    simp [members, written_ofString, hothers]
  | common => simp [members, written_ofString]
  | provided => simp [members, written_ofString]

theorem isPlain_members (k : Kind) (levels : Nat) :
    ∀ member ∈ k.members, member.2.isPlain (levels + 4) = true := by
  cases k with
  | matched others =>
    have hothers : (Value.array (others.map Group.toJson)).isPlain (levels + 4) = true :=
      Value.isPlain_array (List.forall_mem_map.2 fun g _ => g.isPlain_toJson levels)
    simp [members, Value.isPlain_ofString, hothers]
  | common => simp [members, Value.isPlain_ofString]
  | provided => simp [members, Value.isPlain_ofString]

/-- The kind of a region is read back. -/
theorem ofMembers?_members (k : Kind) : ofMembers? k.members = some k := by
  cases k with
  | matched others =>
    have htype : Value.unique? (members (.matched others)) "type" =
        some (some (.ofString "match")) := rfl
    have hmember : Value.unique? (members (.matched others)) "others" =
        some (some (.array (others.map Group.toJson))) := rfl
    have htag : Tag.ofJson? (.ofString "match") = some .matched := rfl
    have hothers : (Value.array (others.map Group.toJson)).list? Group.ofJson? = some others :=
      Value.list?_array_map fun g _ => g.ofJson?_toJson
    simp only [ofMembers?, htype, hmember, htag, Option.bind_eq_bind, Option.bind_some, hothers]
  | common => rfl
  | provided => rfl

end Kind

namespace Region

theorem written_toJson (r : Region) : Written r.toJson := by
  have hends : ∀ member ∈ [("start", Value.ofNat r.first.toNat),
      ("end", Value.ofNat r.last.toNat)], Written member.2 := by
    simp [written_ofNat]
  exact written_ofMembers (List.forall_mem_append.2 ⟨hends, r.kind.written_members⟩)

/-- The members of a kind have other names than the ends of a region. -/
theorem unique?_members (first last : Value) (k : Kind) :
    let members := [("start", first), ("end", last)] ++ k.members
    Value.unique? members "start" = some (some first) ∧
      Value.unique? members "end" = some (some last) ∧
        (members.filter fun member => member.1 != "start" && member.1 != "end") = k.members := by
  cases k with
  | matched others => exact ⟨rfl, rfl, rfl⟩
  | common => exact ⟨rfl, rfl, rfl⟩
  | provided => exact ⟨rfl, rfl, rfl⟩

/-- A region is read back. -/
theorem ofJson?_toJson (r : Region) : ofJson? r.toJson = some r := by
  have hplain : (r.kind.members.all fun member => member.2.isPlain (reportDepth - 2)) = true :=
    List.all_eq_true.2 (r.kind.isPlain_members 121)
  obtain ⟨hfirst, hlast, hrest⟩ :=
    unique?_members (.ofNat r.first.toNat) (.ofNat r.last.toNat) r.kind
  have hkeyed : Value.keyed? (([("start", Value.ofNat r.first.toNat), ("end",
      .ofNat r.last.toNat)] ++ r.kind.members).map named) = some _ := Value.keyed?_map_named _
  show ofJson? (.object (([("start", Value.ofNat r.first.toNat), ("end", .ofNat r.last.toNat)] ++
    r.kind.members).map named)) = _
  simp only [ofJson?, hkeyed, Option.bind_eq_bind, Option.bind_some, hfirst, hlast, hrest, hplain,
    if_true, Value.position?_ofNat, r.kind.ofMembers?_members]

/-- **A report is read back.** -/
theorem ofReport?_report (regions : List Region) : ofReport? (report regions) = some regions := by
  have hwritten : Written (.array (regions.map toJson)) :=
    .array (List.forall_mem_map.2 fun r _ => r.written_toJson)
  rw [ofReport?, report, parse?_pretty hwritten]
  exact Value.list?_array_map fun r _ => r.ofJson?_toJson

end Region

end Resemblance
