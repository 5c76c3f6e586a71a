/-
SettingProfiles.Proofs.Document.Values — what the values of a document's
settings have in common.

Profiles come and go, and settings are copied between them, but a value is
never computed from others. So a property of values that holds of whatever is
put into a document holds of all its values for good.

  §1 `ValuesAre`   — a property of all values, of settings and of documents.
  §2 `SoundWith`   — a sound document with such values, and the operations
                     that keep it one.
-/
import SettingProfiles.Proofs.Upgrade.Filling

namespace SettingProfiles

variable {good : Setting → Prop}

/-! ## §1 `ValuesAre` -/

/-- All values of the settings have the property. -/
def SettingMap.ValuesAre (good : Setting → Prop) (settings : SettingMap) : Prop :=
  ∀ key value, settings.get? key = some value → good value

/-- One more value with the property, in the place of another or not. -/
theorem SettingMap.ValuesAre.insert {settings : SettingMap} {key : String} {value : Setting}
    (h : SettingMap.ValuesAre good settings) (hvalue : good value) :
    SettingMap.ValuesAre good (SortedMap.insert settings key value) := by
  intro k v hv
  rw [SortedMap.get?_insert] at hv
  split at hv
  · cases hv
    exact hvalue
  · exact h k v hv

namespace Document

variable {doc : Document}

/-- All values of all profiles have the property. -/
def ValuesAre (good : Setting → Prop) (doc : Document) : Prop :=
  ∀ name p, doc.profiles.get? name = some p → SettingMap.ValuesAre good p.settings

/-- Only the settings of the profiles count. -/
theorem ValuesAre.of_get?_settings {doc' : Document} (h : doc.ValuesAre good)
    (hsettings : ∀ name, (doc'.profiles.get? name).map Profile.settings
      = (doc.profiles.get? name).map Profile.settings) : doc'.ValuesAre good := by
  intro name p' hp'
  have heq := hsettings name
  rw [hp', Option.map_some] at heq
  obtain ⟨p, hp, hsame⟩ := Option.map_eq_some_iff.mp heq.symm
  exact hsame ▸ h name p hp

theorem ValuesAre.repairCurrent (h : doc.ValuesAre good) : doc.repairCurrent.ValuesAre good := by
  intro n p hp
  rw [repairCurrent_profiles] at hp
  exact h n p hp

/-- Filling in changes a profile only where it has no value, so the values that were there
stay. -/
theorem ValuesAre.fillMissing (h : doc.ValuesAre good) (key : String) {value : Setting}
    (hvalue : good value) : (doc.fillMissing key value).ValuesAre good := by
  intro n q hq
  rw [get?_fillMissing] at hq
  obtain ⟨p, hp, rfl⟩ := Option.map_eq_some_iff.mp hq
  show SettingMap.ValuesAre good (Profile.settings (if _ then _ else _))
  split
  · exact h n p hp
  · exact (h n p hp).insert hvalue

/-- The same of several settings, filled in one after the other. -/
theorem ValuesAre.fillAll {fills : List (String × Setting)} (h : doc.ValuesAre good)
    (hfills : ∀ fill ∈ fills, good fill.2) : (Upgrade.fillAll doc fills).2.ValuesAre good := by
  induction fills generalizing doc with
  | nil => exact h
  | cons fill rest ih =>
    exact ih (h.fillMissing fill.1 (hfills fill (by simp)))
      fun f hf => hfills f (List.mem_cons_of_mem _ hf)

theorem ValuesAre.insert_profile (h : doc.ValuesAre good) {name id : String}
    {settings : SettingMap} (hsettings : SettingMap.ValuesAre good settings) :
    ValuesAre good { doc with profiles := doc.profiles.insert name ⟨id, settings⟩ } := by
  intro n p hp
  simp only [SortedMap.get?_insert] at hp
  split at hp
  · cases hp
    exact hsettings
  · exact h n p hp

/-- A value that is found in a document is one of its values, whichever profile it is found
in. -/
theorem ValuesAre.existingValue? (h : doc.ValuesAre good) {key : String}
    {preferred : Option String} {value : Setting}
    (hvalue : doc.existingValue? key preferred = some value) : good value := by
  unfold Document.existingValue? at hvalue
  simp only at hvalue
  split at hvalue
  · rename_i v hown
    cases hvalue
    obtain ⟨name, -, hown⟩ := Option.bind_eq_some_iff.mp hown
    obtain ⟨p, hp, hv⟩ := Option.bind_eq_some_iff.mp hown
    exact h name p hp key value hv
  · obtain ⟨p, hp, hv⟩ := List.exists_of_findSome?_eq_some hvalue
    obtain ⟨name, hname⟩ := SortedMap.mem_values.mp hp
    exact h name p hname key value hv

/-! ## §2 `SoundWith` -/

/-- A sound document all of whose values have the property. -/
structure SoundWith (good : Setting → Prop) (doc : Document) : Prop extends Sound doc where
  values : doc.ValuesAre good

namespace SoundWith

theorem setCurrent {doc' : Document} {name : String} (h : doc.SoundWith good)
    (heq : doc.setCurrent name = .ok doc') : doc'.SoundWith good := by
  refine ⟨h.toSound.setCurrent heq, ?_⟩
  unfold Document.setCurrent at heq
  split at heq
  · cases heq
    exact h.values
  · cases heq

theorem bindMode (h : doc.SoundWith good) (mode id : String) :
    (doc.bindMode mode id).SoundWith good := ⟨h.toSound.bindMode mode id, h.values⟩

theorem remove {name : String} {p : Profile} {doc' : Document} (h : doc.SoundWith good)
    (heq : doc.remove name = .ok (p, doc')) : doc'.SoundWith good := by
  refine ⟨h.toSound.remove heq, ?_⟩
  unfold Document.remove at heq
  split at heq
  · cases heq
  · split at heq
    · cases heq
    · cases heq
      refine ValuesAre.repairCurrent fun n q hq => ?_
      simp only [SortedMap.get?_erase] at hq
      split at hq
      · cases hq
      · exact h.values n q hq

theorem insert_profile (h : doc.SoundWith good) {name id : String} {settings : SettingMap}
    (hname : name ≠ "") (hne : id ≠ "")
    (hid : (∃ p, doc.profiles.get? name = some p ∧ p.id = id) ∨ id ∉ doc.ids)
    (hsettings : SettingMap.ValuesAre good settings) :
    SoundWith good { doc with profiles := doc.profiles.insert name ⟨id, settings⟩ } :=
  ⟨h.toSound.insert_profile hname hne hid, h.values.insert_profile hsettings⟩

/-- The document after an upgrade that fills good values in. -/
theorem upgraded {fills : List (String × Setting)} (h : doc.SoundWith good)
    (hfills : ∀ fill ∈ fills, good fill.2) (upgrade : String) :
    ((Upgrade.fillAll doc fills).2.markApplied upgrade).SoundWith good :=
  ⟨(Upgrade.sound_fillAll h.toSound fills).markApplied upgrade, h.values.fillAll hfills⟩

end SoundWith

end Document

end SettingProfiles
