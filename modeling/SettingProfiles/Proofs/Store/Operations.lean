/-
SettingProfiles.Proofs.Store.Operations — what each operation leaves stored.

Whatever an operation is given and whatever goes wrong on the way, the texts
that it hands over to be stored are those of sound documents; and once it has
returned, unless it deleted the document, the stored one is sound and up to
date. `Operation.Failure` lists why an operation can fail.

  §1 Saving     — the settings that are completed, the profile that is stored.
  §2 The others
  §3 Operations — `ensures_body`, one case for each operation.
-/
import SettingProfiles.Proofs.Store.Reading

namespace SettingProfiles

open History (OnlyLooks Settled WrittenAre)

variable {initial : Option String} {good : Setting → Prop} {h h' : History} {doc : Document}

/-- The values that an operation is given have the property. -/
def Operation.ValuesAre (good : Setting → Prop) : Operation → Prop
  | .save _ settings => SettingMap.ValuesAre good settings
  | .importDocument doc => doc.ValuesAre good
  | _ => True

theorem Operation.valuesAre_true (op : Operation) : op.ValuesAre fun _ => True := by
  cases op <;> simp [ValuesAre, SettingMap.ValuesAre, Document.ValuesAre]

/-- Why an operation can fail, given the text that was stored before it. -/
inductive Operation.Failure (stored : Option String) : Operation → StoreError → Prop where
  | read {op : Operation} {e : StoreError} (h : ReadFailure stored e) : Failure stored op e
  | notFound {op : Operation} (name : String) : Failure stored op (.notFound name)
  | lastProfile {op : Operation} : Failure stored op .lastProfile
  | invalidName {op : Operation} (name : String) : Failure stored op (.invalidName name)
  | refused {doc : Document} {e : DocumentError} (h : doc.validate = .error e) :
      Failure stored (.importDocument doc) (.ofDocument e)

namespace Procedure

variable {s : Surroundings Effect Effect.Answer}

/-! ## §1 Saving -/

/-- Completing the settings only looks, and the rate limit that is added is one that
a profile has or one that the old settings give. -/
theorem ensures_withRateLimit (lasting : Setting.Lasting good) (hdoc : doc.ValuesAre good)
    {settings : SettingMap} (hsettings : SettingMap.ValuesAre good settings) (name : String) :
    (withRateLimit doc name settings).Ensures s h
      (fun full h' => OnlyLooks h h' ∧ SettingMap.ValuesAre good full)
      (fun e h' => OnlyLooks h h' ∧ ∃ f, e = .ofFault f) := by
  unfold withRateLimit
  split
  · exact ⟨OnlyLooks.refl h, hsettings⟩
  · rw [ensures_bind]
    unfold inheritedRateLimit
    cases hvalue : doc.existingValue? SettingName.rateLimitSeconds (some name) with
    | some value =>
      exact ⟨OnlyLooks.refl h, hsettings.insert (hdoc.existingValue? hvalue)⟩
    | none =>
      show (readLegacy [SettingName.rateLimitSeconds]
        >>= fun legacy => pure legacy.rateLimit).Ensures s h _ _
      rw [ensures_bind]
      refine (ensures_readLegacy _).mono ?_ fun _ _ he => he
      intro legacy h' hlooks
      exact ⟨hlooks, hsettings.insert (lasting.inherited legacy .rateLimit
        (SettingName.rateLimitSeconds, legacy.rateLimit) (by simp [Upgrade.fills]))⟩

/-- Storing a profile in a sound document draws an id at most, and gives a sound
document. -/
theorem ensures_upsert (draws : DrawsFresh s) (hdoc : doc.SoundWith good) {name : String}
    (hname : name ≠ "") {settings : SettingMap} (hsettings : SettingMap.ValuesAre good settings) :
    (doc.upsert freshId name settings : Procedure _).Ensures s h
      (fun r h' => OnlyLooks h h' ∧ ∃ stored, r = .ok stored ∧ stored.document.SoundWith good ∧
        stored.document.upgradeFlags = doc.upgradeFlags)
      (fun _ _ => False) := by
  unfold Document.upsert
  rw [if_neg hname]
  cases hp : doc.profiles.get? name with
  | none =>
    refine ⟨(OnlyLooks.refl h).snoc rfl, _, rfl, ?_, rfl⟩
    exact hdoc.insert_profile hname (draws.ne _ _) (Or.inr (draws.not_mem _ _)) hsettings
  | some p =>
    have hne : p.id ≠ "" := fun hid => hdoc.ids_ne (Document.mem_ids.mpr ⟨name, p, hp, hid⟩)
    dsimp only [Option.map_some]
    rw [if_neg hne]
    exact ⟨OnlyLooks.refl h, _, rfl, hdoc.insert_profile hname hne (Or.inl ⟨p, hp, rfl⟩) hsettings,
      rfl⟩

/-! ## §2 The end of an operation -/

/-- An operation that begins by reading is about the document that was read. -/
theorem ensures_read_bind {β : Type} {f : Document → Procedure β} {op : Operation}
    {ok : β → History → Prop} (fair : Fair initial s) (lasting : Setting.Lasting good)
    (hw : WrittenAre good h)
    (hf : ∀ doc h', Settled good initial h' doc → (f doc).Ensures s h' ok
      (fun e h'' => WrittenAre good h'' ∧ op.Failure (h.stored initial) e)) :
    (read >>= f).Ensures s h ok
      (fun e h' => WrittenAre good h' ∧ op.Failure (h.stored initial) e) := by
  rw [ensures_bind]
  exact (ensures_read fair lasting hw).mono hf fun e h' he => ⟨he.1, .read he.2⟩

/-- A changed document is the stored one at the end. -/
theorem ensures_commit_op {op : Operation} {stored : Option String} (hw : WrittenAre good h)
    (hsound : doc.SoundWith good) (hupToDate : doc.UpToDate) :
    (commit doc).Ensures s h (fun _ h' => ∃ doc, Settled good initial h' doc)
      (fun e h' => WrittenAre good h' ∧ op.Failure stored e) := by
  refine (ensures_commit hw hsound hupToDate).mono (fun _ _ hs => ⟨doc, hs⟩) ?_
  rintro e h' ⟨hw', f, rfl⟩
  exact ⟨hw', .read (.fault f)⟩

theorem ensures_save (fair : Fair initial s) (lasting : Setting.Lasting good) {name : String}
    {settings : SettingMap} (hsettings : SettingMap.ValuesAre good settings)
    (hw : WrittenAre good h) :
    (Procedure.save name settings).Ensures s h (fun _ h' => ∃ doc, Settled good initial h' doc)
      (fun e h' => WrittenAre good h' ∧
        (Operation.save name settings).Failure (h.stored initial) e) := by
  unfold Procedure.save
  by_cases hname : name = ""
  · rw [if_pos hname]
    exact ⟨hw, .invalidName name⟩
  · rw [if_neg hname]
    refine ensures_read_bind fair lasting hw fun doc h₁ hs => ?_
    rw [ensures_bind]
    refine (ensures_withRateLimit lasting hs.sound.values hsettings name).mono ?_ ?_
    · rintro full h₂ ⟨hlooks, hfull⟩
      rw [ensures_bind]
      refine (ensures_upsert fair.drawsFresh hs.sound hname hfull).mono ?_ fun _ _ hf => hf.elim
      rintro r h₃ ⟨hlooks', stored, rfl, hsound, hflags⟩
      rw [ensures_bind, ensures_ofDocument]
      dsimp only
      rw [ensures_bind]
      exact ensures_commit_op (hs.written.onlyLooks (hlooks.trans hlooks')) hsound
        (hs.upToDate.of_upgradeFlags hflags)
    · rintro e h₂ ⟨hlooks, f, rfl⟩
      exact ⟨hs.written.onlyLooks hlooks, .read (.fault f)⟩

theorem ensures_setCurrent {op : Operation} {stored : Option String} (name : String)
    (hs : Settled good initial h doc) :
    (ofDocument (doc.setCurrent name) >>= commit).Ensures s h
      (fun _ h' => ∃ doc, Settled good initial h' doc)
      (fun e h' => WrittenAre good h' ∧ op.Failure stored e) := by
  rw [ensures_bind, ensures_ofDocument]
  cases hdoc : doc.setCurrent name with
  | error e =>
    cases Document.setCurrent_eq_error hdoc
    exact ⟨hs.written, .notFound name⟩
  | ok doc' =>
    exact ensures_commit_op hs.written (hs.sound.setCurrent hdoc)
      (hs.upToDate.of_upgradeFlags (Document.upgradeFlags_of_setCurrent hdoc))

theorem ensures_activate {op : Operation} {stored : Option String} (name : String)
    (hs : Settled good initial h doc) :
    (activate doc name).Ensures s h (fun _ h' => ∃ doc, Settled good initial h' doc)
      (fun e h' => WrittenAre good h' ∧ op.Failure stored e) := by
  unfold activate
  rw [ensures_bind, ensures_ofDocument]
  cases hp : doc.profile name with
  | error e =>
    cases Document.profile_eq_error hp
    exact ⟨hs.written, .notFound name⟩
  | ok p =>
    dsimp only
    rw [← bind_assoc, ensures_bind]
    exact ensures_setCurrent name hs

theorem ensures_remove (fair : Fair initial s) (lasting : Setting.Lasting good) {op : Operation}
    (name : String) (hw : WrittenAre good h) :
    (Procedure.remove name).Ensures s h (fun _ h' => ∃ doc, Settled good initial h' doc)
      (fun e h' => WrittenAre good h' ∧ op.Failure (h.stored initial) e) := by
  unfold Procedure.remove
  refine ensures_read_bind fair lasting hw fun doc h₁ hs => ?_
  rw [ensures_bind, ensures_ofDocument]
  cases hdoc : doc.remove name with
  | error e =>
    rcases Document.remove_eq_error hdoc with rfl | rfl
    · exact ⟨hs.written, .notFound name⟩
    · exact ⟨hs.written, .lastProfile⟩
  | ok r =>
    dsimp only
    rw [ensures_bind]
    exact ensures_commit_op hs.written (hs.sound.remove hdoc)
      (hs.upToDate.of_upgradeFlags (Document.upgradeFlags_of_remove hdoc))

/-- An imported document is sound and up to date before it is stored. -/
theorem ensures_importDocument (fair : Fair initial s) (lasting : Setting.Lasting good)
    {stored : Option String} (hvalues : doc.ValuesAre good) (hw : WrittenAre good h) :
    (Procedure.importDocument doc).Ensures s h (fun _ h' => ∃ doc, Settled good initial h' doc)
      (fun e h' => WrittenAre good h' ∧ (Operation.importDocument doc).Failure stored e) := by
  unfold Procedure.importDocument
  rw [ensures_bind, ensures_ofDocument]
  cases hvalid : doc.validate with
  | error e => exact ⟨hw, .refused hvalid⟩
  | ok _ =>
    dsimp only
    rw [ensures_bind]
    refine (ensures_upgradeDetached fair.drawsFresh lasting hvalid hvalues).mono ?_ ?_
    · rintro r h₁ ⟨hsound, hupToDate, hlooks⟩
      rw [ensures_bind]
      exact ensures_commit_op (hw.onlyLooks hlooks) hsound hupToDate
    · rintro e h₁ ⟨hlooks, f, rfl⟩
      exact ⟨hw.onlyLooks hlooks, .read (.fault f)⟩

theorem ensures_reset {stored : Option String} (hw : WrittenAre good h) :
    (Operation.reset.body).Ensures s h (fun _ h' => WrittenAre good h')
      (fun e h' => WrittenAre good h' ∧ Operation.reset.Failure stored e) := by
  unfold Operation.body
  rw [ensures_bind, ensures_delete]
  cases s h .delete with
  | ok _ => exact (hw.snoc rfl).snoc rfl
  | error f => exact ⟨hw.snoc rfl, .read (.fault f)⟩

end Procedure

/-! ## §3 Operations -/

namespace Operation

open Procedure

variable {s : Surroundings Effect Effect.Answer}

/-- **What an operation leaves behind.** Everything that it hands over to be stored is
sound; once it has returned, the stored document is sound and up to date, unless
it deleted the document. -/
theorem ensures_body (fair : Fair initial s) (lasting : Setting.Lasting good) (op : Operation)
    (hvalues : op.ValuesAre good) (hw : WrittenAre good h) :
    op.body.Ensures s h
      (fun _ h' => WrittenAre good h' ∧ (op ≠ .reset → ∃ doc, Settled good initial h' doc))
      (fun e h' => WrittenAre good h' ∧ op.Failure (h.stored initial) e) := by
  -- all but `reset` leave a settled document
  have settled : ∀ {α : Type} {p : Procedure α},
      p.Ensures s h (fun _ h' => ∃ doc, Settled good initial h' doc)
        (fun e h' => WrittenAre good h' ∧ op.Failure (h.stored initial) e) →
      p.Ensures s h
        (fun _ h' => WrittenAre good h' ∧ (op ≠ .reset → ∃ doc, Settled good initial h' doc))
        (fun e h' => WrittenAre good h' ∧ op.Failure (h.stored initial) e) := fun hp =>
    hp.mono (fun _ _ ⟨doc, hs⟩ => ⟨hs.written, fun _ => ⟨doc, hs⟩⟩) fun _ _ he => he
  cases op with
  | reset =>
    exact (ensures_reset hw).mono (fun _ _ hw' => ⟨hw', fun h => absurd rfl h⟩) fun _ _ he => he
  | importDocument doc => exact settled (ensures_importDocument fair lasting hvalues hw)
  | save name settings => exact settled (ensures_save fair lasting hvalues hw)
  | delete name => exact settled (ensures_remove fair lasting name hw)
  | load name =>
    refine settled (ensures_read_bind fair lasting hw fun doc h₁ hs => ?_)
    rw [ensures_bind]
    exact ensures_activate name hs
  | loadById id =>
    refine settled (ensures_read_bind fair lasting hw fun doc h₁ hs => ?_)
    cases doc.profileById? id with
    | none => exact ⟨hs.written, .notFound id⟩
    | some found =>
      dsimp only
      rw [ensures_bind]
      exact ensures_activate found.1 hs
  | setCurrent name =>
    exact settled (ensures_read_bind fair lasting hw fun doc h₁ hs => ensures_setCurrent name hs)
  | bindMode mode id =>
    exact settled (ensures_read_bind fair lasting hw fun doc h₁ hs =>
      ensures_commit_op hs.written (hs.sound.bindMode mode id)
        (hs.upToDate.of_upgradeFlags rfl))
  | profile name =>
    refine settled (ensures_read_bind fair lasting hw fun doc h₁ hs => ?_)
    rw [ensures_ofDocument]
    cases hp : doc.profile name with
    | error e =>
      cases Document.profile_eq_error hp
      exact ⟨hs.written, .notFound name⟩
    | ok p => exact ⟨doc, hs⟩
  | exportDocument =>
    exact settled ((ensures_read fair lasting hw).mono (fun doc _ hs => ⟨doc, hs⟩)
      fun _ _ he => ⟨he.1, .read he.2⟩)
  | _ =>
    refine settled (ensures_read_bind fair lasting hw fun doc h₁ hs => ?_)
    exact ⟨doc, hs⟩

end Operation

end SettingProfiles
