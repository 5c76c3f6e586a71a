/-
SettingProfiles.Proofs.Store.Ids — which operations take profile ids away.

An id stays in the store as long as its profile does: bringing a document up to date
keeps it, and of the operations only three can end it. Deleting takes away the id of
the profile that is deleted and no other; importing and resetting replace the whole
document.

  §1 Stored ids — `HasId`.
  §2 Reading    — the ids of the document that an operation begins with.
  §3 Operations — `ensures_body_keepsIds`.
-/
import SettingProfiles.Proofs.Document.Ids
import SettingProfiles.Proofs.Store.Failures
import SettingProfiles.Proofs.Store.Given

namespace SettingProfiles

open History (OnlyLooks StoredIs)

variable {initial : Option String} {h : History} {doc : Document} {id : String}
  {s : Surroundings Effect Effect.Answer}

/-! ## §1 Stored ids -/

/-- The id is that of a profile in the stored document. A text that cannot be read is
that of the document it was written for. -/
def HasId (stored : Option String) (id : String) : Prop :=
  ∃ text ∈ stored, ∃ doc : Document,
    (Document.decode? text = some doc ∨ text = doc.encode) ∧ id ∈ doc.ids

theorem hasId_encode (hid : id ∈ doc.ids) : HasId (some doc.encode) id :=
  ⟨doc.encode, rfl, doc, .inr rfl, hid⟩

theorem History.StoredIs.hasId (hs : StoredIs initial h doc) (hid : id ∈ doc.ids) :
    HasId (h.stored initial) id := by
  obtain ⟨text, htext, hdoc⟩ := hs
  exact ⟨text, htext, doc, hdoc, hid⟩

/-- Writing and reading change no id. -/
theorem hasId_iff_of_decode? {text : String} (hdecode : Document.decode? text = some doc) :
    HasId (some text) id ↔ id ∈ doc.ids := by
  constructor
  · rintro ⟨_, ⟨⟩, d, hd | rfl, hid⟩
    · rw [hdecode] at hd
      cases hd
      exact hid
    · rw [Document.decode?_encode] at hdecode
      exact (Document.mem_ids_of_reread? hdecode).mpr hid
  · intro hid
    exact ⟨text, rfl, doc, .inl hdecode, hid⟩

/-! ## §2 Reading -/

namespace Procedure

/-- Repair takes no id away but the empty one. -/
theorem ensures_normalise_keepsIds (doc : Document) :
    (doc.normalise freshId).Ensures s h (fun d _ => doc.KeepsIds d) fun _ _ => False := by
  unfold Document.normalise Document.assignIds
  rw [ensures_bind]
  refine Ensures.mono (ensures_foldlM
    (I := fun names d _ => (∀ name ∈ names, name ∈ doc.unidentified) ∧
      ∀ name, name ∉ doc.unidentified → d.profiles.get? name = doc.profiles.get? name) _ ?_
    ⟨fun _ hname => hname, fun _ _ => rfl⟩) ?_ fun _ _ hf => hf
  · rintro name names d h' ⟨hnames, hsame⟩
    rw [ensures_bind, ensures_freshId, ensures_pure]
    refine ⟨fun n hn => hnames n (List.mem_cons_of_mem _ hn), fun n hn => ?_⟩
    have hne : name ≠ n := fun heq => hn (heq ▸ hnames name (by simp))
    rw [Document.get?_withId]
    simp [hne, hsame n hn]
  · rintro d h' ⟨-, hsame⟩
    rw [ensures_pure]
    refine Document.keepsIds_of_get?_eq fun name hname => ?_
    rw [Document.repairCurrent_profiles]
    exact hsame name hname

theorem ensures_ensureUpgraded_keepsIds (draws : DrawsFresh s) (hvalid : doc.validate = .ok ()) :
    doc.ensureUpgraded.Ensures s h (fun r _ => doc.KeepsIds r.document) fun _ _ => True := by
  refine (ensures_ensureUpgraded_of (I := fun _ d _ => d.Sound ∧ doc.KeepsIds d) ?_
    (fun _ _ _ _ hd => hd) ?_).mono
    (fun _ _ hd => hd.2) fun _ _ he => he
  · exact ((ensures_normalise draws hvalid).and (ensures_normalise_keepsIds doc)).mono
      (fun _ _ hd => ⟨hd.1.2.1, hd.2⟩) fun _ _ _ => trivial
  · rintro u us d h' ⟨hsound, hkeeps⟩
    refine (ensures_applyUpgrade hsound.validate_eq_ok u).mono ?_ fun _ _ _ => trivial
    rintro next k ⟨-, legacy, rfl⟩
    exact ⟨(Upgrade.sound_fillAll hsound _).markApplied _, hkeeps.trans
      (Document.keepsIds_upgraded _ _)⟩

/-- The document that an operation begins with is stored and sound, and has the ids that
were stored. -/
theorem ensures_read_keepsIds (fair : Fair initial s) :
    read.Ensures s []
      (fun doc h' => StoredIs initial h' doc ∧ doc.Sound ∧
        ∀ id ≠ "", HasId initial id → id ∈ doc.ids)
      fun _ _ => True := by
  have hsettled := ensures_read fair Setting.lasting_true (.nil _)
  have hids : read.Ensures s [] (fun doc _ => ∀ id ≠ "", HasId initial id → id ∈ doc.ids)
      fun _ _ => True := by
    cases hget : s [] .get with
    | error f =>
      rw [ensures_read_fault hget]
      trivial
    | ok text =>
      obtain rfl : text = initial := fair.get_eq [] text hget
      cases text with
      | none =>
        -- there is no id to keep
        refine (ensures_true _).mono (fun _ h' _ => ?_) fun _ _ _ => trivial
        rintro id - ⟨text, htext, -⟩
        cases htext
      | some text =>
        rw [ensures_read_text hget]
        cases hdecode : Document.decode? text with
        | none => trivial
        | some doc =>
          dsimp only
          cases hvalid : doc.validate with
          | error e => trivial
          | ok _ =>
            refine (ensures_ensureUpgraded_keepsIds fair.drawsFresh hvalid).mono ?_
              fun _ _ he => he
            intro r h' hkeeps id hne hid
            exact hkeeps id ((hasId_iff_of_decode? hdecode).mp hid) hne
  exact (hsettled.and hids).mono (fun doc h' hd => ⟨hd.1.stored, hd.1.sound.toSound, hd.2⟩)
    fun _ _ _ => trivial

end Procedure

/-! ## §3 Operations -/

namespace Operation

/-- The ids that an operation may take away, given what it returned. -/
def MayEnd : (op : Operation) → op.Result → String → Prop
  | .delete _, p, id => p.id = id
  | .importDocument _, _, _ | .reset, _, _ => True
  | _, _, _ => False

end Operation

namespace Procedure

variable {α : Type}

/-- The stored document has the ids of the document, the empty one apart. -/
def IdsStored (initial : Option String) (doc : Document) (h : History) : Prop :=
  ∀ id ∈ doc.ids, id ≠ "" → HasId (h.stored initial) id

/-- An operation that begins by reading and ends with the ids of the document that it
read keeps all ids. -/
theorem ensures_read_bind_keepsIds {f : Document → Procedure α} (ended : α → String → Prop)
    (fair : Fair initial s)
    (hf : ∀ doc h', StoredIs initial h' doc → doc.Sound →
      (f doc).Ensures s h' (fun _ h'' => IdsStored initial doc h'') fun _ _ => True) :
    (read >>= f).Ensures s []
      (fun a h'' => ∀ id ≠ "", HasId initial id → HasId (h''.stored initial) id ∨ ended a id)
      fun _ _ => True := by
  rw [ensures_bind]
  refine (ensures_read_keepsIds fair).mono ?_ fun _ _ he => he
  rintro doc h' ⟨hstored, hsound, hids⟩
  exact (hf doc h' hstored hsound).mono
    (fun a h'' ha id hne hid => .inl (ha id (hids id hne hid) hne)) fun _ _ he => he

theorem ensures_commit_keepsIds {d : Document} (hkeeps : doc.KeepsIds d) :
    (commit d).Ensures s h (fun _ h' => IdsStored initial doc h') fun _ _ => True := by
  have hcommit : (commit d).Ensures s h (fun _ h' => h'.stored initial = some d.encode)
      fun _ _ => True := ensures_commit_stored
  refine hcommit.mono (fun _ h' hstored id hid hne => ?_) fun _ _ he => he
  rw [hstored]
  exact hasId_encode (hkeeps id hid hne)

theorem ensures_setCurrent_keepsIds (name : String) :
    (ofDocument (doc.setCurrent name) >>= commit).Ensures s h
      (fun _ h' => IdsStored initial doc h') fun _ _ => True := by
  rw [ensures_bind, ensures_ofDocument]
  cases hdoc : doc.setCurrent name with
  | error e => trivial
  | ok d => exact ensures_commit_keepsIds (Document.keepsIds_setCurrent hdoc)

theorem ensures_activate_keepsIds (name : String) :
    (activate doc name).Ensures s h (fun _ h' => IdsStored initial doc h') fun _ _ => True := by
  unfold activate
  rw [ensures_bind, ensures_ofDocument]
  cases doc.profile name with
  | error e => trivial
  | ok p =>
    dsimp only
    rw [← bind_assoc, ensures_bind]
    exact ensures_setCurrent_keepsIds name

theorem ensures_upsert_keepsIds (hsound : doc.Sound) (name : String) (settings : SettingMap) :
    (doc.upsert freshId name settings : Procedure _).Ensures s h
      (fun r _ => ∀ stored, r = .ok stored → doc.KeepsIds stored.document) fun _ _ => True := by
  unfold Document.upsert
  split
  · intro stored hstored
    cases hstored
  · cases hp : doc.profiles.get? name with
    | none =>
      rintro stored ⟨⟩
      exact Document.keepsIds_insert_profile (by simp [hp])
    | some p =>
      have hne : p.id ≠ "" := fun hid => hsound.ids_ne (Document.mem_ids.mpr ⟨name, p, hp, hid⟩)
      dsimp only [Option.map_some]
      rw [if_neg hne]
      rintro stored ⟨⟩
      exact Document.keepsIds_insert_profile (by simp [hp])

theorem ensures_save_keepsIds (fair : Fair initial s) (name : String) (settings : SettingMap) :
    (Procedure.save name settings).Ensures s []
      (fun _ h' => ∀ id ≠ "", HasId initial id → HasId (h'.stored initial) id ∨ False)
      fun _ _ => True := by
  unfold Procedure.save
  split
  · trivial
  · refine ensures_read_bind_keepsIds (fun _ _ => False) fair fun doc h₁ _ hsound => ?_
    rw [ensures_bind]
    refine (ensures_true _).mono (fun full h₂ _ => ?_) fun _ _ he => he
    rw [ensures_bind]
    refine (ensures_upsert_keepsIds hsound name full).mono (fun r h₃ hr => ?_) fun _ _ he => he
    rw [ensures_bind, ensures_ofDocument]
    cases r with
    | error e => trivial
    | ok stored =>
      dsimp only
      rw [ensures_bind]
      exact ensures_commit_keepsIds (hr stored rfl)

/-- Deleting takes away the id of the profile that it returns. -/
theorem ensures_remove_keepsIds (fair : Fair initial s) (name : String) :
    (Procedure.remove name).Ensures s []
      (fun p h' => ∀ id ≠ "", HasId initial id → HasId (h'.stored initial) id ∨ p.id = id)
      fun _ _ => True := by
  unfold Procedure.remove
  rw [ensures_bind]
  refine (ensures_read_keepsIds fair).mono ?_ fun _ _ he => he
  rintro doc h₁ ⟨-, -, hids⟩
  rw [ensures_bind, ensures_ofDocument]
  cases hdoc : doc.remove name with
  | error e => trivial
  | ok r =>
    obtain ⟨p, rest⟩ := r
    dsimp only
    rw [ensures_bind]
    have hcommit : (commit rest).Ensures s h₁ (fun _ h₂ => h₂.stored initial = some rest.encode)
        fun _ _ => True := ensures_commit_stored
    refine hcommit.mono (fun _ h₂ hstored => ?_) fun _ _ he => he
    rw [ensures_pure, hstored]
    intro id hne hid
    exact (Document.mem_ids_of_remove hdoc (hids id hne hid)).imp_left hasId_encode

end Procedure

namespace Operation

open Procedure

/-- An operation that returns takes no id away but those that it may, and the empty one. -/
theorem ensures_body_keepsIds (fair : Fair initial s) (op : Operation) :
    op.body.Ensures s []
      (fun r h' => ∀ id ≠ "", HasId initial id → HasId (h'.stored initial) id ∨ op.MayEnd r id)
      fun _ _ => True := by
  cases op with
  | reset => exact (ensures_true _).mono (fun _ _ _ _ _ _ => .inr trivial) fun _ _ he => he
  | importDocument doc =>
    exact (ensures_true _).mono (fun _ _ _ _ _ _ => .inr trivial) fun _ _ he => he
  | delete name => exact ensures_remove_keepsIds fair name
  | save name settings => exact ensures_save_keepsIds fair name settings
  | load name =>
    refine ensures_read_bind_keepsIds _ fair fun doc h' _ _ => ?_
    rw [ensures_bind]
    exact ensures_activate_keepsIds name
  | loadById id =>
    refine ensures_read_bind_keepsIds _ fair fun doc h' _ _ => ?_
    cases doc.profileById? id with
    | none => trivial
    | some found =>
      dsimp only
      rw [ensures_bind]
      exact ensures_activate_keepsIds found.1
  | setCurrent name =>
    exact ensures_read_bind_keepsIds _ fair fun doc h' _ _ => ensures_setCurrent_keepsIds name
  | bindMode mode id =>
    exact ensures_read_bind_keepsIds _ fair fun doc h' _ _ =>
      ensures_commit_keepsIds (Document.keepsIds_bindMode mode id)
  | profile name =>
    refine ensures_read_bind_keepsIds _ fair fun doc h' hstored _ => ?_
    rw [ensures_ofDocument]
    cases doc.profile name with
    | error e => trivial
    | ok p => exact fun id hid _ => hstored.hasId hid
  | exportDocument =>
    show Procedure.read.Ensures s [] _ _
    rw [← bind_pure Procedure.read]
    exact ensures_read_bind_keepsIds _ fair fun doc h' hstored _ id hid _ => hstored.hasId hid
  | _ => exact ensures_read_bind_keepsIds _ fair fun doc h' hstored _ id hid _ => hstored.hasId hid

end Operation

end SettingProfiles
