import Resemblance.Proofs.Attempt
import Resemblance.Settings.Load

/-!
# Which settings are loaded

Settings come from one file or from two, and nothing is used before all of it was checked.  Which
file tells the settings of the engine is decided before any of it is read: a file that is named has
to be there, one beside the settings of the gradeable need not.

## What is here

* `Says`, `FileFault` — what a JSON file says, and why it says nothing.
* `EngineFrom`, `EngineFault` — where the settings of the engine come from.
* `load_eq_ok_iff`, `LoadFault`, `load_eq_error_iff` — the settings that are loaded, and the fault
  when none are.
* `Usable`, `check_eq_ok_iff` — what is known of settings that were checked.
-/

set_option autoImplicit false
namespace Resemblance
namespace Settings

/-! ## Files -/

/-- Whether a JSON file says something. -/
def Says {α : Type} (t : Tree) (path : Path) (ofJson? : Json.Value → Option α) (a : α) : Prop :=
  ∃ text v, t.readText path = .ok text ∧ Json.parse? text = some v ∧ ofJson? v = some a

/-- Why a JSON file says nothing: it cannot be read, or it is not JSON of the right form. -/
inductive FileFault {α : Type} (t : Tree) (path : Path) (ofJson? : Json.Value → Option α) :
    SettingsFault → Prop
  | unreadable {e : FileError} (h : t.readText path = .error e) :
      FileFault t path ofJson? (.unreadable path.text e)
  | malformed {text : String} (htext : t.readText path = .ok text)
      (h : ∀ v, Json.parse? text = some v → ofJson? v = none) :
      FileFault t path ofJson? (.malformed path.text)

section File

variable {α : Type} {t : Tree} {path : Path} {ofJson? : Json.Value → Option α}

theorem readFile_eq_ok_iff {a : α} :
    readFile t path ofJson? = .ok a ↔ Says t path ofJson? a := by
  rw [readFile]
  cases hread : t.readText path with
  | error e =>
    refine ⟨fun h => ?_, ?_⟩
    · cases h
    · rintro ⟨text, v, htext, -⟩
      cases hread.symm.trans htext
  | ok text =>
    dsimp only
    cases hparsed : (Json.parse? text).bind ofJson? with
    | none =>
      refine ⟨fun h => ?_, ?_⟩
      · cases h
      · rintro ⟨text', v, htext, hv, ha⟩
        obtain rfl := Except.ok.inj (hread.symm.trans htext)
        cases hparsed.symm.trans (Option.bind_eq_some_iff.2 ⟨v, hv, ha⟩)
    | some a' =>
      refine ⟨fun h => ?_, ?_⟩
      · cases h
        obtain ⟨v, hv, ha⟩ := Option.bind_eq_some_iff.1 hparsed
        exact ⟨text, v, hread, hv, ha⟩
      · rintro ⟨text', v, htext, hv, ha⟩
        obtain rfl := Except.ok.inj (hread.symm.trans htext)
        rw [Option.some_inj.1 (hparsed.symm.trans (Option.bind_eq_some_iff.2 ⟨v, hv, ha⟩))]

theorem readFile_eq_error_iff {fault : Fault} :
    readFile t path ofJson? = .error fault ↔
      ∃ f, fault = .settings f ∧ FileFault t path ofJson? f := by
  rw [readFile]
  cases hread : t.readText path with
  | error e =>
    refine ⟨fun h => ?_, ?_⟩
    · cases h
      exact ⟨_, rfl, .unreadable hread⟩
    · rintro ⟨f, rfl, h⟩
      cases h with
      | unreadable h => rw [Except.error.inj (hread.symm.trans h)]
      | malformed htext _ => cases hread.symm.trans htext
  | ok text =>
    dsimp only
    cases hparsed : (Json.parse? text).bind ofJson? with
    | none =>
      refine ⟨fun h => ?_, ?_⟩
      · cases h
        exact ⟨_, rfl, .malformed hread fun v hv => by rwa [hv, Option.bind_some] at hparsed⟩
      · rintro ⟨f, rfl, h⟩
        cases h with
        | unreadable h => cases hread.symm.trans h
        | malformed _ _ => rfl
    | some a =>
      refine ⟨fun h => ?_, ?_⟩
      · cases h
      · rintro ⟨f, rfl, h⟩
        cases h with
        | unreadable h => cases hread.symm.trans h
        | malformed htext h =>
          obtain rfl := Except.ok.inj (hread.symm.trans htext)
          obtain ⟨v, hv, ha⟩ := Option.bind_eq_some_iff.1 hparsed
          cases (h v hv).symm.trans ha

end File

/-! ## The settings of the engine -/

/-- Where the settings of the engine come from: the file that is named, or the one in the directory
if it is there, or else nowhere. -/
inductive EngineFrom (t : Tree) (root : Path) : Option Path → Engine → Prop
  | named {path : Path} {e : Engine} (hfile : t.isFile path = true)
      (h : Says t path Engine.ofJson? e) : EngineFrom t root (some path) e
  | found {e : Engine} (hfile : t.isFile (root / engineFile) = true)
      (h : Says t (root / engineFile) Engine.ofJson? e) : EngineFrom t root none e
  | default (hnone : t.isFile (root / engineFile) = false) : EngineFrom t root none {}

/-- Why there are no settings of the engine: the file that is named is not there, or the one they
come from says nothing. -/
inductive EngineFault (t : Tree) (root : Path) : Option Path → SettingsFault → Prop
  | missing {path : Path} (hnone : t.isFile path = false) :
      EngineFault t root (some path) (.noEngineFile path.text)
  | named {path : Path} {fault : SettingsFault} (hfile : t.isFile path = true)
      (h : FileFault t path Engine.ofJson? fault) : EngineFault t root (some path) fault
  | found {fault : SettingsFault} (hfile : t.isFile (root / engineFile) = true)
      (h : FileFault t (root / engineFile) Engine.ofJson? fault) : EngineFault t root none fault

section Engine

variable {t : Tree} {root : Path} {named : Option Path}

theorem loadEngine_of_isFile (h : t.isFile (named.getD (root / engineFile)) = true) :
    loadEngine t root named = readFile t (named.getD (root / engineFile)) Engine.ofJson? :=
  if_pos h

theorem loadEngine_of_not_isFile (h : t.isFile (named.getD (root / engineFile)) = false) :
    loadEngine t root named =
      match named with
      | some path => .error (.settings (.noEngineFile path.text))
      | none => .ok {} := by
  rw [loadEngine, if_neg (by rw [h]; decide)]
  cases named <;> rfl

theorem loadEngine_eq_ok_iff {e : Engine} :
    loadEngine t root named = .ok e ↔ EngineFrom t root named e := by
  cases hfile : t.isFile (named.getD (root / engineFile)) with
  | true =>
    rw [loadEngine_of_isFile hfile, readFile_eq_ok_iff]
    refine ⟨fun h => ?_, fun h => ?_⟩
    · cases named with
      | some path => exact .named hfile h
      | none => exact .found hfile h
    · cases h with
      | named _ h => exact h
      | found _ h => exact h
      | default hnone => cases hfile.symm.trans hnone
  | false =>
    rw [loadEngine_of_not_isFile hfile]
    refine ⟨fun h => ?_, fun h => ?_⟩
    · cases named with
      | some path => cases h
      | none =>
        cases h
        exact .default hfile
    · cases h with
      | named h _ => cases hfile.symm.trans h
      | found h _ => cases hfile.symm.trans h
      | default _ => rfl

theorem loadEngine_eq_error_iff {fault : Fault} :
    loadEngine t root named = .error fault ↔
      ∃ f, fault = .settings f ∧ EngineFault t root named f := by
  cases hfile : t.isFile (named.getD (root / engineFile)) with
  | true =>
    rw [loadEngine_of_isFile hfile, readFile_eq_error_iff]
    refine exists_congr fun f => and_congr_right fun _ => ⟨fun h => ?_, fun h => ?_⟩
    · cases named with
      | some path => exact .named hfile h
      | none => exact .found hfile h
    · cases h with
      | missing hnone => cases hfile.symm.trans hnone
      | named _ h => exact h
      | found _ h => exact h
  | false =>
    rw [loadEngine_of_not_isFile hfile]
    refine ⟨fun h => ?_, ?_⟩
    · cases named with
      | some path =>
        cases h
        exact ⟨_, rfl, .missing hfile⟩
      | none => cases h
    · rintro ⟨f, rfl, h⟩
      cases h with
      | missing _ => rfl
      | named h _ => cases hfile.symm.trans h
      | found h _ => cases hfile.symm.trans h

end Engine

/-! ## All settings -/

/-- Why no settings are loaded.  First the file of the gradeable counts, then where the settings of
the engine come from, and then the check of both. -/
inductive LoadFault (t : Tree) (root : Path) (named : Option Path) : SettingsFault → Prop
  | gradeable {fault : SettingsFault}
      (h : FileFault t (root / gradeableFile) Gradeable.ofJson? fault) :
      LoadFault t root named fault
  | engine {g : Gradeable} {fault : SettingsFault}
      (hgradeable : Says t (root / gradeableFile) Gradeable.ofJson? g)
      (h : EngineFault t root named fault) : LoadFault t root named fault
  | check {s : Settings} {fault : SettingsFault}
      (hgradeable : Says t (root / gradeableFile) Gradeable.ofJson? s.gradeable)
      (hengine : EngineFrom t root named s.engine) (h : s.check = .error fault) :
      LoadFault t root named fault

section Load

variable {t : Tree} {root : Path} {named : Option Path} {s : Settings}

/-- The steps of loading. -/
theorem load_eq : load t root named =
    readFile t (root / gradeableFile) Gradeable.ofJson? >>= fun gradeable =>
      loadEngine t root named >>= fun engine =>
        ((check ⟨gradeable, engine⟩).mapError Fault.settings).map fun _ => ⟨gradeable, engine⟩ := by
  rw [load]
  refine congrArg (_ >>= ·) (funext fun gradeable => congrArg (_ >>= ·) (funext fun engine => ?_))
  show ((check ⟨gradeable, engine⟩).mapError Fault.settings >>=
    fun _ => pure (⟨gradeable, engine⟩ : Settings)) = _
  cases check ⟨gradeable, engine⟩ <;> rfl

/-- **Settings are loaded if both files say something that passes the check.** -/
theorem load_eq_ok_iff : load t root named = .ok s ↔
    Says t (root / gradeableFile) Gradeable.ofJson? s.gradeable ∧
      EngineFrom t root named s.engine ∧ s.check = .ok () := by
  simp only [load_eq, bind_eq_ok_iff, map_eq_ok_iff, mapError_eq_ok_iff, readFile_eq_ok_iff,
    loadEngine_eq_ok_iff]
  refine ⟨?_, ?_⟩
  · rintro ⟨gradeable, hgradeable, engine, hengine, _, hcheck, rfl⟩
    exact ⟨hgradeable, hengine, hcheck⟩
  · rintro ⟨hgradeable, hengine, hcheck⟩
    exact ⟨_, hgradeable, _, hengine, (), hcheck, rfl⟩

/-- **Loading fails for the first reason there is**, and always with a fault of the settings. -/
theorem load_eq_error_iff {fault : Fault} :
    load t root named = .error fault ↔
      ∃ f, fault = .settings f ∧ LoadFault t root named f := by
  simp only [load_eq, bind_eq_error_iff, map_eq_error_iff, mapError_eq_error_iff,
    readFile_eq_ok_iff, readFile_eq_error_iff, loadEngine_eq_ok_iff, loadEngine_eq_error_iff]
  constructor
  · rintro (⟨f, rfl, h⟩ | ⟨gradeable, hgradeable, ⟨f, rfl, h⟩ | ⟨engine, hengine, f, rfl, h⟩⟩)
    · exact ⟨f, rfl, .gradeable h⟩
    · exact ⟨f, rfl, .engine hgradeable h⟩
    · let s : Settings := ⟨gradeable, engine⟩
      exact ⟨f, rfl, .check (s := s) hgradeable hengine h⟩
  · rintro ⟨f, rfl, h⟩
    cases h with
    | gradeable h => exact .inl ⟨f, rfl, h⟩
    | engine hgradeable h => exact .inr ⟨_, hgradeable, .inl ⟨f, rfl, h⟩⟩
    | check hgradeable hengine h => exact .inr ⟨_, hgradeable, .inr ⟨_, hengine, f, rfl, h⟩⟩

end Load

/-! ## Settings that were checked -/

/-- Whether settings can be used as they are. -/
structure Usable (s : Settings) : Prop where
  gradeable : Text.isAllBlank s.gradeable.gradeable = false
  hashSize : 1 ≤ s.gradeable.hashSize
  threshold : 2 ≤ s.gradeable.threshold
  positionCap : 1 ≤ s.engine.positionCap
  weights : s.engine.weights.check = .ok ()

theorem Gradeable.check_eq_ok_iff {g : Gradeable} :
    g.check = .ok () ↔
      Text.isAllBlank g.gradeable = false ∧ 1 ≤ g.hashSize ∧ 2 ≤ g.threshold := by
  rw [check]
  split
  · rename_i hblank
    simp [hblank]
  · rename_i hblank
    split
    · simp
      omega
    · split
      · simp
        omega
      · simp [hblank]
        omega

theorem Engine.check_eq_ok_iff {e : Engine} :
    e.check = .ok () ↔ 1 ≤ e.positionCap ∧ e.weights.check = .ok () := by
  rw [check]
  split
  · simp
    omega
  · rw [iff_and_self]
    intro _
    omega

/-- **Settings pass the check exactly if they can be used.** -/
theorem check_eq_ok_iff {s : Settings} : s.check = .ok () ↔ s.Usable := by
  have hsteps : s.check = .ok () ↔ s.gradeable.check = .ok () ∧ s.engine.check = .ok () := by
    rw [check, bind_eq_ok_iff]
    exact ⟨fun ⟨_, hgradeable, hengine⟩ => ⟨hgradeable, hengine⟩,
      fun ⟨hgradeable, hengine⟩ => ⟨(), hgradeable, hengine⟩⟩
  rw [hsteps, Gradeable.check_eq_ok_iff, Engine.check_eq_ok_iff]
  exact ⟨fun ⟨⟨hgradeable, hhash, hthreshold⟩, hcap, hweights⟩ =>
      ⟨hgradeable, hhash, hthreshold, hcap, hweights⟩,
    fun h => ⟨⟨h.gradeable, h.hashSize, h.threshold⟩, h.positionCap, h.weights⟩⟩

end Settings
end Resemblance
