/-
SettingProfiles.Proofs.Upgrade.Filling — what an upgrade leaves alone.

An upgrade fills settings in and is recorded by a flag. Neither touches the
names and ids of the profiles or the current name, so both keep a document
sound; and an upgrade refuses a document only if `validate` does.

  §1 Filling — `fillMissing` and `fillAll`, and what they keep.
  §2 Applying and recording
-/
import SettingProfiles.Proofs.Document.Sound
import SettingProfiles.Upgrade.Basic

namespace SettingProfiles

namespace Document

/-! ## §1 Filling -/

@[simp] theorem fillMissing_current (doc : Document) (key : String) (value : Setting) :
    (doc.fillMissing key value).current = doc.current := rfl

@[simp] theorem fillMissing_upgradeFlags (doc : Document) (key : String) (value : Setting) :
    (doc.fillMissing key value).upgradeFlags = doc.upgradeFlags := rfl

/-- A profile without the setting gets the value, and every other stays as it is. -/
theorem get?_fillMissing (doc : Document) (key : String) (value : Setting) (name : String) :
    (doc.fillMissing key value).profiles.get? name
      = (doc.profiles.get? name).map fun p =>
          if p.settings.contains key then p
          else { p with settings := p.settings.insert key value } :=
  SortedMap.get?_mapValues _ _ _

/-- Filling a setting in changes no id. -/
theorem get?_fillMissing_id (doc : Document) (key : String) (value : Setting) (name : String) :
    ((doc.fillMissing key value).profiles.get? name).map Profile.id
      = (doc.profiles.get? name).map Profile.id := by
  rw [get?_fillMissing, Option.map_map]
  congr 1
  funext p
  show Profile.id (if _ then _ else _) = _
  split <;> rfl

theorem Sound.fillMissing {doc : Document} (h : doc.Sound) (key : String) (value : Setting) :
    (doc.fillMissing key value).Sound :=
  h.of_get?_id (get?_fillMissing_id doc key value) rfl

end Document

namespace Upgrade

/-- What filling in one setting keeps, filling in several keeps. -/
theorem fillAll_keeps {P : Document → Prop}
    (hstep : ∀ doc key value, P doc → P (Document.fillMissing doc key value))
    {doc : Document} (h : P doc) (fills : List (String × Setting)) : P (fillAll doc fills).2 := by
  induction fills generalizing doc with
  | nil => exact h
  | cons fill rest ih => exact ih (hstep doc fill.1 fill.2 h)

theorem fillAll_upgradeFlags (doc : Document) (fills : List (String × Setting)) :
    (fillAll doc fills).2.upgradeFlags = doc.upgradeFlags :=
  fillAll_keeps (P := fun d => d.upgradeFlags = doc.upgradeFlags) (fun _ _ _ h => h) rfl fills

/-- Filling settings in changes no id. -/
theorem get?_fillAll_id (doc : Document) (fills : List (String × Setting)) (name : String) :
    ((fillAll doc fills).2.profiles.get? name).map Profile.id
      = (doc.profiles.get? name).map Profile.id :=
  fillAll_keeps (P := fun d => (d.profiles.get? name).map Profile.id
      = (doc.profiles.get? name).map Profile.id)
    (fun d key value hd => (d.get?_fillMissing_id key value name).trans hd) rfl fills

theorem sound_fillAll {doc : Document} (h : doc.Sound) (fills : List (String × Setting)) :
    (fillAll doc fills).2.Sound :=
  fillAll_keeps (fun _ key value hd => hd.fillMissing key value) h fills

/-! ## §2 Applying and recording -/

/-- A valid document is not refused. -/
theorem apply_eq_ok (u : Upgrade) (legacy : LegacyValues) {doc : Document}
    (h : doc.validate = .ok ()) :
    u.apply legacy doc
      = .ok (decide (0 < (fillAll doc (u.fills legacy)).1), (fillAll doc (u.fills legacy)).2) := by
  unfold apply
  rw [h]
  rfl

/-- Upgrades are told apart by the names under which they are recorded. -/
theorem name_injective {u v : Upgrade} (h : u.name = v.name) : u = v := by
  cases u <;> cases v <;> first | rfl | exact absurd h (by decide)

theorem mem_all (u : Upgrade) : u ∈ all := by cases u <;> decide

end Upgrade

namespace Document

/-- Recording an upgrade records no other. -/
theorem isApplied_markApplied (doc : Document) (u v : Upgrade) :
    (doc.markApplied u.name).isApplied v.name = true ↔
      u = v ∨ doc.isApplied v.name = true := by
  unfold isApplied markApplied
  simp only [SortedMap.get?_insert]
  split
  · rename_i hname
    simp [Upgrade.name_injective hname]
  · rename_i hname
    constructor
    · exact Or.inr
    · rintro (rfl | h)
      · exact absurd rfl hname
      · exact h

theorem mem_pending {doc : Document} {u : Upgrade} :
    u ∈ doc.pending ↔ doc.isApplied u.name = false := by
  simp [pending, Upgrade.mem_all]

/-- Every upgrade is recorded as applied. -/
def UpToDate (doc : Document) : Prop := ∀ u ∈ Upgrade.all, doc.isApplied u.name = true

theorem upToDate_iff_pending_eq_nil {doc : Document} : doc.UpToDate ↔ doc.pending = [] := by
  simp [UpToDate, pending, List.filter_eq_nil_iff]

end Document

end SettingProfiles
