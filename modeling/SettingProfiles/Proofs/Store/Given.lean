/-
SettingProfiles.Proofs.Store.Given — what an operation is given is stored.

Settings are filled in before a document is stored, ids are drawn and the current
name is repaired, but no value is dropped on the way. So a property that all
values of the stored document have is one that all values have that were given.

  §1 Documents  — filling in takes nothing away.
  §2 Procedures — completing, storing and upgrading.
  §3 Operations — `ensures_body_given`.
-/
import SettingProfiles.Proofs.Store.Operations

namespace SettingProfiles

variable {initial : Option String} {good : Setting → Prop} {h : History} {doc : Document}
  {s : Surroundings Effect Effect.Answer}

/-! ## §1 Documents -/

/-- A value that is added replaces none. -/
theorem SettingMap.ValuesAre.of_insert {settings : SettingMap} {key : String} {value : Setting}
    (hkey : settings.contains key = false)
    (h : SettingMap.ValuesAre good (SortedMap.insert settings key value)) :
    SettingMap.ValuesAre good settings := by
  intro k v hv
  have hne : key ≠ k := by
    rintro rfl
    simp [SortedMap.contains, hv] at hkey
  refine h k v ?_
  rw [SortedMap.get?_insert, if_neg hne]
  exact hv

namespace Document

/-- Filling a key in touches only the profiles that lack it. -/
theorem ValuesAre.of_fillMissing {key : String} {value : Setting}
    (h : (doc.fillMissing key value).ValuesAre good) : doc.ValuesAre good := by
  intro name p hp
  have hget := get?_fillMissing doc key value name
  rw [hp, Option.map_some] at hget
  have hfilled := h name _ hget
  by_cases hkey : p.settings.contains key = true
  · rwa [if_pos hkey] at hfilled
  · rw [if_neg hkey] at hfilled
    exact hfilled.of_insert (Bool.not_eq_true _ ▸ hkey)

theorem ValuesAre.of_fillAll {fills : List (String × Setting)}
    (h : (Upgrade.fillAll doc fills).2.ValuesAre good) : doc.ValuesAre good := by
  induction fills generalizing doc with
  | nil => exact h
  | cons fill rest ih => exact (ih h).of_fillMissing

end Document

/-! ## §2 Procedures -/

namespace Procedure

theorem ensures_true {α : Type} (p : Procedure α) :
    p.Ensures s h (fun _ _ => True) fun _ _ => True := by
  unfold Ensures Program.Ensures
  cases (p.run.converse s h).1 <;> trivial

/-- A committed document is the stored one. -/
theorem ensures_commit_stored :
    (commit doc).Ensures s h (fun _ h' => h'.stored initial = some doc.encode)
      fun _ _ => True := by
  unfold commit
  rw [ensures_bind, ensures_persist]
  cases s h (.set doc.encode) with
  | ok _ =>
    rw [ensures_publish, History.stored_append, History.stored_append]
    rfl
  | error f => trivial

/-- The back-filled limit joins the given settings, so it stands in the way of none. -/
theorem ensures_withRateLimit_given (good : Setting → Prop) (name : String)
    (settings : SettingMap) :
    (withRateLimit doc name settings).Ensures s h
      (fun full _ => SettingMap.ValuesAre good full → SettingMap.ValuesAre good settings)
      fun _ _ => True := by
  unfold withRateLimit
  split
  · exact id
  · rename_i hmissing
    rw [ensures_bind]
    refine (ensures_true _).mono (fun limit h' _ => ?_) fun _ _ _ => trivial
    exact fun hfull => hfull.of_insert (Bool.not_eq_true _ ▸ hmissing)

theorem ensures_upsert_given (good : Setting → Prop) {name : String} (hname : name ≠ "")
    (settings : SettingMap) :
    (doc.upsert freshId name settings : Procedure _).Ensures s h
      (fun r _ => ∃ stored, r = .ok stored ∧
        (stored.document.ValuesAre good → SettingMap.ValuesAre good settings))
      fun _ _ => True := by
  have hgiven : ∀ id : String, Document.ValuesAre good
      { doc with profiles := doc.profiles.insert name ⟨id, settings⟩ } →
      SettingMap.ValuesAre good settings := fun id hvalues =>
    hvalues name ⟨id, settings⟩ (SortedMap.get?_insert_self _ _ _)
  unfold Document.upsert
  rw [if_neg hname]
  cases doc.profiles.get? name with
  | none => exact ⟨_, rfl, hgiven _⟩
  | some p =>
    dsimp only [Option.map_some]
    split <;> exact ⟨_, rfl, hgiven _⟩

/-- Repair and upgrades keep the values that an imported document brings. -/
theorem ensures_upgradeDetached_given (good : Setting → Prop) (draws : DrawsFresh s)
    (hvalid : doc.validate = .ok ()) :
    doc.upgradeDetached.Ensures s h
      (fun r _ => r.document.ValuesAre good → doc.ValuesAre good) fun _ _ => True := by
  unfold Document.upgradeDetached
  rw [ensures_bind]
  refine (ensures_normalise draws hvalid).mono ?_ fun _ _ _ => trivial
  rintro repaired h' ⟨-, hsound, hsame⟩
  have hrepaired : repaired.ValuesAre good → doc.ValuesAre good := fun hvalues =>
    hvalues.of_get?_settings fun name => (hsame.settings name).symm
  rw [ensures_bind]
  refine Ensures.mono (ensures_foldlM
    (I := fun _ d _ => d.Sound ∧ (d.ValuesAre good → doc.ValuesAre good)) _ ?_
    ⟨hsound, hrepaired⟩) (fun d h'' hd => ensures_pure.mpr hd.2) fun _ _ he => he
  rintro u us d h'' ⟨hd, hvalues⟩
  refine (ensures_applyUpgrade hd.validate_eq_ok u).mono ?_ fun _ _ _ => trivial
  rintro next k ⟨-, legacy, rfl⟩
  exact ⟨(Upgrade.sound_fillAll hd _).markApplied _, fun hnext =>
    hvalues (Document.ValuesAre.of_fillAll hnext)⟩

/-! ## §3 Operations -/

/-- A save that returns has stored all settings it was given. -/
theorem ensures_save_given (name : String) (settings : SettingMap) :
    (Procedure.save name settings).Ensures s h
      (fun _ h' => ∃ doc : Document, h'.stored initial = some doc.encode ∧
        (doc.ValuesAre good → SettingMap.ValuesAre good settings))
      fun _ _ => True := by
  unfold Procedure.save
  by_cases hname : name = ""
  · rw [if_pos hname]
    trivial
  · rw [if_neg hname]
    simp only [ensures_bind]
    refine (ensures_true _).mono (fun doc h₁ _ => ?_) fun _ _ _ => trivial
    refine (ensures_withRateLimit_given good name settings).mono ?_ fun _ _ _ => trivial
    intro full h₂ hfull
    refine (ensures_upsert_given good hname full).mono ?_ fun _ _ _ => trivial
    rintro r h₃ ⟨stored, rfl, hstored⟩
    rw [ensures_ofDocument]
    exact ensures_commit_stored.mono (fun _ _ h => ⟨_, h, fun hvalues => hfull (hstored hvalues)⟩)
      fun _ _ _ => trivial

/-- An import that returns has stored all values of the imported document. -/
theorem ensures_importDocument_given (fair : Fair initial s) (doc : Document) :
    (Procedure.importDocument doc).Ensures s h
      (fun _ h' => ∃ final : Document, h'.stored initial = some final.encode ∧
        (final.ValuesAre good → doc.ValuesAre good))
      fun _ _ => True := by
  unfold Procedure.importDocument
  rw [ensures_bind, ensures_ofDocument]
  cases hvalid : doc.validate with
  | error e => trivial
  | ok _ =>
    simp only [ensures_bind]
    refine (ensures_upgradeDetached_given good fair.drawsFresh hvalid).mono ?_ fun _ _ _ => trivial
    intro r h₁ hr
    exact ensures_commit_stored.mono (fun _ _ h => ⟨_, h, hr⟩) fun _ _ _ => trivial

end Procedure

/-- **What an operation is given is stored**, if it returns: a property of all values
of the document that is stored then is one of all values given. -/
theorem Operation.ensures_body_given (good : Setting → Prop) (fair : Fair initial s)
    (op : Operation) :
    op.body.Ensures s h
      (fun _ h' => op.ValuesAre good ∨ ∃ doc : Document, h'.stored initial = some doc.encode ∧
        (doc.ValuesAre good → op.ValuesAre good))
      fun _ _ => True := by
  cases op with
  | save name settings =>
    exact (Procedure.ensures_save_given name settings).mono (fun _ _ h => .inr h)
      fun _ _ h => h
  | importDocument doc =>
    exact (Procedure.ensures_importDocument_given fair doc).mono (fun _ _ h => .inr h)
      fun _ _ h => h
  | _ => exact (Procedure.ensures_true _).mono (fun _ _ _ => .inl trivial) fun _ _ h => h

end SettingProfiles
