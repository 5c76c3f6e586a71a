/-
SettingProfiles.Proofs.Store.Upgrading — what bringing a document up to date
comes to.

Repair draws ids and stores nothing; each upgrade looks old settings up and
stores nothing either; between them the document is stored. What comes out is
sound and up to date, what was stored on the way is sound, and nothing but a
fault of a call can go wrong.

  §1 Stored documents — `StoredIs`, `WrittenAre`, `Lasting`.
  §2 Repair           — `ensures_normalise`.
  §3 One upgrade      — `ensures_applyUpgrade`.
  §4 All upgrades     — `ensures_ensureUpgraded`, `ensures_upgradeDetached`.
-/
import SettingProfiles.Proofs.Document.Values
import SettingProfiles.Proofs.Store.History

namespace SettingProfiles

/-! ## §1 Stored documents -/

namespace History

/-- The stored text is that of the document: reading it gives the document, or it
is what writing the document gives. -/
def StoredIs (initial : Option String) (h : History) (doc : Document) : Prop :=
  ∃ text, h.stored initial = some text ∧ (Document.decode? text = some doc ∨ text = doc.encode)

/-- Every text that was handed over to be stored is that of a sound document with
good values. -/
def WrittenAre (good : Setting → Prop) (h : History) : Prop :=
  ∀ text ∈ h.written, ∃ doc, Document.SoundWith good doc ∧ text = doc.encode

variable {initial : Option String} {good : Setting → Prop} {h h' : History} {doc : Document}

theorem WrittenAre.nil (good : Setting → Prop) : WrittenAre good [] := by
  simp [WrittenAre, written]

theorem WrittenAre.onlyLooks (hw : WrittenAre good h) (hl : OnlyLooks h h') :
    WrittenAre good h' := by
  unfold WrittenAre at *
  rwa [hl.written_eq]

/-- A call that hands nothing over. -/
theorem WrittenAre.snoc (hw : WrittenAre good h) {x : Exchange Effect Effect.Answer}
    (hx : x.question.text? = none) : WrittenAre good (h ++ [x]) := by
  intro text htext
  rw [written_append] at htext
  rcases List.mem_append.mp htext with htext | htext
  · exact hw text htext
  · simp [written, hx] at htext

theorem WrittenAre.set (hw : WrittenAre good h) (hdoc : doc.SoundWith good)
    (a : Except Fault Unit) : WrittenAre good (h ++ [⟨.set doc.encode, a⟩]) := by
  intro text htext
  rw [written_append] at htext
  rcases List.mem_append.mp htext with htext | htext
  · exact hw text htext
  · exact ⟨doc, hdoc, List.mem_singleton.mp htext⟩

theorem storedIs_set : StoredIs initial (h ++ [⟨.set doc.encode, .ok ()⟩]) doc :=
  ⟨doc.encode, by rw [stored_append]; rfl, Or.inr rfl⟩

end History

open History

/-- A property of values that the values of every text that can be read have, and
those that are taken over from the old settings. -/
structure Setting.Lasting (good : Setting → Prop) : Prop where
  decoded : ∀ {text doc}, Document.decode? text = some doc → doc.ValuesAre good
  inherited : ∀ (legacy : LegacyValues) (u : Upgrade), ∀ fill ∈ u.fills legacy, good fill.2

theorem Setting.lasting_true : Setting.Lasting fun _ => True :=
  ⟨fun _ _ _ _ _ _ _ => trivial, fun _ _ _ _ => trivial⟩

/-! ## §2 Repair -/

namespace Document

/-- A document with a profile needs no repair exactly if its ids are non-empty and
all different and its current name is that of a profile. -/
theorem isNormal_iff {doc : Document} (h : doc.profiles.isEmpty = false) :
    doc.isNormal = true ↔
      ("" ∉ doc.ids ∧ doc.ids.Nodup) ∧ doc.profiles.contains doc.current = true := by
  rw [← unidentified_eq_nil_iff]
  simp [isNormal, currentDangles, h]

theorem unidentified_of_isNormal {doc : Document} (hnormal : doc.isNormal = true) :
    doc.unidentified = [] := by
  have := (Bool.and_eq_true _ _ ▸ hnormal).1
  simpa using this

/-- The current name of a document that needs no repair stays; without a profile any
name does. -/
theorem repairCurrent_of_isNormal {doc : Document} (hnormal : doc.isNormal = true) :
    doc.repairCurrent = doc := by
  cases hprofiles : doc.profiles.isEmpty with
  | true =>
    have hkeys : doc.profiles.keys = [] := by
      simpa [SortedMap.isEmpty, SortedMap.keys] using hprofiles
    unfold repairCurrent
    rw [hkeys]
    split <;> rfl
  | false => exact repairCurrent_eq_self ((isNormal_iff hprofiles).mp hnormal).2

/-- A document that needs no repair passes through, and no id is drawn. -/
theorem normalise_eq_pure {m : Type → Type} [Monad m] [LawfulMonad m]
    {fresh : List String → m String} {doc : Document} (hnormal : doc.isNormal = true) :
    doc.normalise fresh = pure doc := by
  simp [normalise, assignIds, unidentified_of_isNormal hnormal, repairCurrent_of_isNormal hnormal]

theorem Sound.isNormal {doc : Document} (h : doc.Sound) : doc.isNormal = true :=
  (isNormal_iff h.profiles).mpr ⟨⟨h.ids_ne, h.ids_nodup⟩, h.current⟩

/-- Repair is all that a valid document lacks. -/
theorem sound_of_isNormal {doc : Document} (hvalid : doc.validate = .ok ())
    (h : doc.isNormal = true) : doc.Sound := by
  obtain ⟨hprofiles, hnames⟩ := validate_eq_ok_iff.mp hvalid
  obtain ⟨⟨hne, hnodup⟩, hcurrent⟩ := (isNormal_iff hprofiles).mp h
  exact ⟨hprofiles, hnames, hcurrent, hne, hnodup⟩

/-- The other document differs in ids and in the current name at most. -/
structure SameContent (doc doc' : Document) : Prop where
  settings : ∀ name, (doc'.profiles.get? name).map Profile.settings
    = (doc.profiles.get? name).map Profile.settings
  modeBindings : doc'.modeBindings = doc.modeBindings
  upgradeFlags : doc'.upgradeFlags = doc.upgradeFlags

namespace SameContent

variable {doc doc' : Document}

theorem refl (doc : Document) : SameContent doc doc := ⟨fun _ => rfl, rfl, rfl⟩

theorem contains_eq (h : SameContent doc doc') (name : String) :
    doc'.profiles.contains name = doc.profiles.contains name := by
  have := congrArg Option.isSome (h.settings name)
  simpa [SortedMap.contains] using this

theorem isEmpty_eq (h : SameContent doc doc') : doc'.profiles.isEmpty = doc.profiles.isEmpty := by
  rw [Bool.eq_iff_iff, ← not_iff_not, Bool.not_eq_true, Bool.not_eq_true,
    SortedMap.isEmpty_eq_false_iff, SortedMap.isEmpty_eq_false_iff]
  simp only [h.contains_eq]

theorem withId (h : SameContent doc doc') (name id : String) :
    SameContent doc (doc'.withId name id) := by
  refine ⟨fun n => ?_, by simpa using h.modeBindings, by simpa using h.upgradeFlags⟩
  rw [get?_withId, Option.map_map, ← h.settings n]
  congr 1
  funext p
  show Profile.settings (if _ then _ else _) = _
  split <;> rfl

theorem repairCurrent (h : SameContent doc doc') : SameContent doc doc'.repairCurrent := by
  refine ⟨fun n => ?_, by simpa using h.modeBindings, by simpa using h.upgradeFlags⟩
  rw [repairCurrent_profiles]
  exact h.settings n

end SameContent

end Document

namespace Procedure

variable {s : Surroundings Effect Effect.Answer} {h : History} {initial : Option String}
  {good : Setting → Prop} {doc : Document}

/-- Drawing ids one after the other leaves no profile without an id of its own. -/
theorem ensures_assignIds (draws : DrawsFresh s) (doc : Document) :
    (doc.assignIds freshId).Ensures s h
      (fun d h' => OnlyLooks h h' ∧ d.IdentifiedBut [] ∧ doc.SameContent d ∧
        d.current = doc.current)
      (fun _ _ => False) := by
  unfold Document.assignIds
  refine ensures_foldlM
    (I := fun names d h' => OnlyLooks h h' ∧ d.IdentifiedBut names ∧ doc.SameContent d ∧
      d.current = doc.current) _ ?_
    ⟨OnlyLooks.refl h, doc.identifiedBut_unidentified, .refl doc, rfl⟩
  rintro name names d h' ⟨hlooks, hids, hsame, hcurrent⟩
  rw [ensures_bind, ensures_freshId, ensures_pure]
  exact ⟨hlooks.snoc rfl, hids.withId (draws.ne h' d.ids) (draws.not_mem h' d.ids),
    hsame.withId _ _, by simpa using hcurrent⟩

/-- Repair makes a valid document sound, and changes ids and the current name at
most. -/
theorem ensures_normalise (draws : DrawsFresh s) (hvalid : doc.validate = .ok ()) :
    (doc.normalise freshId).Ensures s h
      (fun d h' => OnlyLooks h h' ∧ d.Sound ∧ doc.SameContent d)
      (fun _ _ => False) := by
  obtain ⟨hprofiles, hnames⟩ := Document.validate_eq_ok_iff.mp hvalid
  unfold Document.normalise
  rw [ensures_bind]
  refine (ensures_assignIds draws doc).mono ?_ fun _ _ hf => hf
  rintro d h' ⟨hlooks, hids, hsame, -⟩
  obtain ⟨hne, hnodup⟩ := Document.identifiedBut_nil_iff.mp hids
  have hprofiles' : d.profiles.isEmpty = false := hsame.isEmpty_eq.trans hprofiles
  rw [ensures_pure]
  refine ⟨hlooks, ⟨?_, ?_, ?_, ?_, ?_⟩, hsame.repairCurrent⟩
  · rwa [Document.repairCurrent_profiles]
  · rw [Document.repairCurrent_profiles, hsame.contains_eq]
    exact hnames
  · rw [Document.repairCurrent_profiles]
    exact Document.contains_current_repairCurrent hprofiles'
  · unfold Document.ids
    rwa [Document.repairCurrent_profiles]
  · unfold Document.ids
    rwa [Document.repairCurrent_profiles]

/-! ## §3 One upgrade -/

/-- Looking old settings up only looks, and fails only with a fault. -/
theorem ensures_readLegacy (keys : List String) :
    (readLegacy keys).Ensures s h (fun _ h' => OnlyLooks h h')
      (fun e h' => OnlyLooks h h' ∧ ∃ f, e = .ofFault f) := by
  unfold readLegacy
  refine ensures_foldlM (I := fun _ _ h' => OnlyLooks h h') keys ?_ (OnlyLooks.refl h)
  intro key keys values h' hlooks
  rw [ensures_bind, ensures_legacy]
  cases s h' (.legacy key) with
  | ok value => cases value <;> exact hlooks.snoc rfl
  | error p => exact ⟨hlooks.snoc rfl, .panic p, rfl⟩

/-- An upgrade fills in what it finds in the old settings and is recorded. -/
theorem ensures_applyUpgrade (hvalid : doc.validate = .ok ()) (u : Upgrade) :
    (doc.applyUpgrade u).Ensures s h
      (fun d h' => OnlyLooks h h' ∧
        ∃ legacy, d = (Upgrade.fillAll doc (u.fills legacy)).2.markApplied u.name)
      (fun e h' => OnlyLooks h h' ∧ ∃ f, e = .ofFault f) := by
  unfold Document.applyUpgrade
  rw [ensures_bind]
  refine (ensures_readLegacy u.legacyKeys).mono ?_ fun _ _ he => he
  intro legacy h' hlooks
  rw [Upgrade.apply_eq_ok u legacy hvalid]
  exact ⟨hlooks, legacy, rfl⟩

/-! ## §4 All upgrades -/

/-- What is left to record while the upgrades are applied one after the other. -/
def RecordedBut (us : List Upgrade) (doc : Document) : Prop :=
  ∀ u, u ∈ us ∨ doc.isApplied u.name = true

theorem recordedBut_pending (doc : Document) : RecordedBut doc.pending doc := by
  intro u
  rw [Document.mem_pending]
  cases doc.isApplied u.name <;> simp

theorem RecordedBut.upToDate (h : RecordedBut [] doc) : doc.UpToDate := by
  intro u _
  simpa using h u

theorem RecordedBut.upgraded {u : Upgrade} {us : List Upgrade} (h : RecordedBut (u :: us) doc)
    (fills : List (String × Setting)) :
    RecordedBut us ((Upgrade.fillAll doc fills).2.markApplied u.name) := by
  intro v
  have hflags : (Upgrade.fillAll doc fills).2.isApplied v.name = doc.isApplied v.name := by
    unfold Document.isApplied
    rw [Upgrade.fillAll_upgradeFlags]
  rw [Document.isApplied_markApplied, hflags]
  rcases h v with hmem | happlied
  · rcases List.mem_cons.mp hmem with rfl | hmem
    · exact Or.inr (Or.inl rfl)
    · exact Or.inl hmem
  · exact Or.inr (Or.inr happlied)

theorem ensures_persist {ok : Unit → History → Prop} {err : StoreError → History → Prop} :
    (persist doc).Ensures s h ok err ↔
      match s h (.set doc.encode) with
      | .ok () => ok () (h ++ [⟨.set doc.encode, .ok ()⟩])
      | .error f => err (.ofFault f) (h ++ [⟨.set doc.encode, .error f⟩]) := by
  refine ensures_set.trans ?_
  cases s h (.set doc.encode) <;> rfl

/-- A document that lacks nothing passes through without a call. -/
theorem ensureUpgraded_eq_pure (hnormal : doc.isNormal = true) (hupToDate : doc.UpToDate) :
    doc.ensureUpgraded = (pure ⟨doc, [], 0⟩ : Procedure Upgraded) := by
  unfold Document.ensureUpgraded
  rw [Document.normalise_eq_pure hnormal]
  simp [hnormal, Document.upToDate_iff_pending_eq_nil.mp hupToDate]

/-- What the repaired document has and every upgrade keeps, the document has that is
returned. It may speak of the upgrades still to come and of the calls so far, if it does
not matter to it that a document is stored. -/
theorem ensures_ensureUpgraded_of {I : List Upgrade → Document → History → Prop}
    (hrepair : (doc.normalise freshId).Ensures s h (fun d h' => I d.pending d h')
      fun _ _ => True)
    (hpersist : ∀ us d h' (stored : Document), I us d h' →
      I us d (h' ++ [⟨.set stored.encode, .ok ()⟩]))
    (hupgrade : ∀ u us d h', I (u :: us) d h' →
      (d.applyUpgrade u).Ensures s h' (I us) fun _ _ => True) :
    doc.ensureUpgraded.Ensures s h (fun r h' => I [] r.document h') fun _ _ => True := by
  have hupgrades : ∀ (repaired : Document) (h' : History), I repaired.pending repaired h' →
      (repaired.pending.foldlM (fun d u => do
        let next ← d.applyUpgrade u
        persist next
        return next) repaired : Procedure Document).Ensures s h' (I []) fun _ _ => True := by
    intro repaired h' hinv
    refine ensures_foldlM (I := I) _ ?_ hinv
    intro u us d k hd
    rw [ensures_bind]
    refine (hupgrade u us d k hd).mono ?_ fun _ _ he => he
    intro next k' hnext
    rw [ensures_bind, ensures_persist]
    cases s k' (.set next.encode) with
    | ok _ => exact hpersist us next k' next hnext
    | error f => trivial
  unfold Document.ensureUpgraded
  rw [ensures_bind]
  refine hrepair.mono ?_ fun _ _ he => he
  intro repaired h' hinv
  cases doc.isNormal with
  | true =>
    simp only [if_true]
    rw [ensures_bind]
    exact (hupgrades repaired h' hinv).mono (fun _ _ hd => hd) fun _ _ he => he
  | false =>
    simp only [if_false, Bool.false_eq_true]
    rw [ensures_bind, ensures_persist]
    cases s h' (.set repaired.encode) with
    | ok _ =>
      dsimp only
      rw [ensures_bind]
      exact (hupgrades repaired _ (hpersist _ repaired h' repaired hinv)).mono
        (fun _ _ hd => hd) fun _ _ he => he
    | error f => trivial

/-- Each pending upgrade is applied to a sound document, which is then stored. -/
theorem ensures_storeUpgrades (lasting : Setting.Lasting good) (hsound : doc.SoundWith good)
    (hw : WrittenAre good h) (hstored : StoredIs initial h doc) :
    (doc.pending.foldlM (fun d u => do
      let next ← d.applyUpgrade u
      persist next
      return next) doc : Procedure Document).Ensures s h
      (fun d h' => d.SoundWith good ∧ d.UpToDate ∧ WrittenAre good h' ∧ StoredIs initial h' d)
      (fun e h' => WrittenAre good h' ∧ ∃ f, e = .ofFault f) := by
  refine Ensures.mono (ensures_foldlM
    (I := fun us d h' => d.SoundWith good ∧ RecordedBut us d ∧ WrittenAre good h' ∧
      StoredIs initial h' d) _ ?_ ⟨hsound, recordedBut_pending doc, hw, hstored⟩)
    (fun d h' hd => ⟨hd.1, hd.2.1.upToDate, hd.2.2⟩) fun _ _ he => he
  rintro u us d h' ⟨hd, hrecorded, hw', hstored'⟩
  rw [ensures_bind]
  refine (ensures_applyUpgrade hd.validate_eq_ok u).mono ?_
    fun e k he => ⟨hw'.onlyLooks he.1, he.2⟩
  rintro next k ⟨hlooks, legacy, rfl⟩
  have hnext := hd.upgraded (lasting.inherited legacy u) u.name
  rw [ensures_bind, ensures_persist]
  split
  · exact ⟨hnext, hrecorded.upgraded _, (hw'.onlyLooks hlooks).set hnext _, storedIs_set⟩
  · rename_i f _
    exact ⟨(hw'.onlyLooks hlooks).set hnext _, f, rfl⟩

/-- A document that is brought up to date is sound, and so is every document stored
on the way. The one stored last is the one that is returned. -/
theorem ensures_ensureUpgraded (draws : DrawsFresh s) (lasting : Setting.Lasting good)
    (hvalid : doc.validate = .ok ()) (hvalues : doc.ValuesAre good) (hw : WrittenAre good h)
    (hstored : StoredIs initial h doc) :
    doc.ensureUpgraded.Ensures s h
      (fun r h' => r.document.SoundWith good ∧ r.document.UpToDate ∧ WrittenAre good h' ∧
        StoredIs initial h' r.document)
      (fun e h' => WrittenAre good h' ∧ ∃ f, e = .ofFault f) := by
  unfold Document.ensureUpgraded
  by_cases hnormal : doc.isNormal = true
  · have hsound : doc.SoundWith good := ⟨Document.sound_of_isNormal hvalid hnormal, hvalues⟩
    rw [Document.normalise_eq_pure hnormal, pure_bind]
    simp only [hnormal, if_true]
    rw [ensures_bind]
    exact (ensures_storeUpgrades lasting hsound hw hstored).mono (fun _ _ hd => hd) fun _ _ he => he
  · rw [ensures_bind]
    refine (ensures_normalise draws hvalid).mono ?_ fun _ _ hf => hf.elim
    rintro repaired h' ⟨hlooks, hsound, hsame⟩
    have hrepaired : repaired.SoundWith good :=
      ⟨hsound, hvalues.of_get?_settings hsame.settings⟩
    simp only [hnormal, if_false, Bool.false_eq_true]
    rw [ensures_bind, ensures_persist]
    split
    · rw [ensures_bind]
      exact (ensures_storeUpgrades lasting hrepaired ((hw.onlyLooks hlooks).set hrepaired _)
        storedIs_set).mono (fun _ _ hd => hd) fun _ _ he => he
    · rename_i f _
      exact ⟨(hw.onlyLooks hlooks).set hrepaired _, f, rfl⟩

/-- Bringing a document up to date without storing it only looks. -/
theorem ensures_upgradeDetached (draws : DrawsFresh s) (lasting : Setting.Lasting good)
    (hvalid : doc.validate = .ok ()) (hvalues : doc.ValuesAre good) :
    doc.upgradeDetached.Ensures s h
      (fun r h' => r.document.SoundWith good ∧ r.document.UpToDate ∧ OnlyLooks h h')
      (fun e h' => OnlyLooks h h' ∧ ∃ f, e = .ofFault f) := by
  unfold Document.upgradeDetached
  rw [ensures_bind]
  refine (ensures_normalise draws hvalid).mono ?_ fun _ _ hf => hf.elim
  rintro repaired h' ⟨hlooks, hsound, hsame⟩
  have hrepaired : repaired.SoundWith good := ⟨hsound, hvalues.of_get?_settings hsame.settings⟩
  rw [ensures_bind]
  refine Ensures.mono (ensures_foldlM
    (I := fun us d h'' => d.SoundWith good ∧ RecordedBut us d ∧ OnlyLooks h h'') _ ?_
    ⟨hrepaired, recordedBut_pending repaired, hlooks⟩)
    (fun d h'' hd => ⟨hd.1, hd.2.1.upToDate, hd.2.2⟩) fun _ _ he => he
  rintro u us d h'' ⟨hd, hrecorded, hlooks'⟩
  refine (ensures_applyUpgrade hd.validate_eq_ok u).mono ?_
    fun e k he => ⟨hlooks'.trans he.1, he.2⟩
  rintro next k ⟨hlooks'', legacy, rfl⟩
  exact ⟨hd.upgraded (lasting.inherited legacy u) u.name, hrecorded.upgraded _,
    hlooks'.trans hlooks''⟩

end Procedure

end SettingProfiles
