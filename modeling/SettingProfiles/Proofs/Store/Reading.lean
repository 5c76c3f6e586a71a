/-
SettingProfiles.Proofs.Store.Reading — the beginning and the end of an
operation.

Almost every operation begins by reading the stored document and bringing it
up to date, and those that change it end by storing and announcing it. After
the beginning the stored text is that of a sound, up-to-date document, the one
that was read; after the end it is that of the changed one.

  §1 `Settled`  — what holds of the history once a document is the stored one.
  §2 Reading    — `ensures_read`; `ReadFailure` lists how it can fail.
  §3 Committing — `ensures_commit`.
-/
import SettingProfiles.Proofs.Store.Upgrading

namespace SettingProfiles

variable {initial : Option String} {good : Setting → Prop} {h : History} {doc : Document}

namespace History

/-! ## §1 `Settled` -/

/-- The document is the stored one, sound and up to date, and whatever was stored
before was sound. -/
structure Settled (good : Setting → Prop) (initial : Option String) (h : History)
    (doc : Document) : Prop where
  sound : doc.SoundWith good
  upToDate : doc.UpToDate
  written : WrittenAre good h
  stored : StoredIs initial h doc

end History

open History

/-- Only the flags count. -/
theorem Document.UpToDate.of_upgradeFlags {doc doc' : Document} (h : doc.UpToDate)
    (hflags : doc'.upgradeFlags = doc.upgradeFlags) : doc'.UpToDate := by
  intro u hu
  have := h u hu
  unfold Document.isApplied at *
  rwa [hflags]

/-! ## §2 Reading -/

/-- How reading can fail, given the stored text: a call goes wrong, the text is not
that of a document, or the document is not valid. -/
inductive ReadFailure (stored : Option String) : StoreError → Prop where
  | fault (f : Fault) : ReadFailure stored (.ofFault f)
  | corrupt {text : String} (hstored : stored = some text)
      (hdecode : Document.decode? text = none) : ReadFailure stored .corrupt
  | invalid {text : String} {doc : Document} {e : DocumentError} (hstored : stored = some text)
      (hdecode : Document.decode? text = some doc) (hinvalid : doc.validate = .error e) :
      ReadFailure stored (.invalidDocument e)

/-- The document of a new storage: one profile with an id, everything recorded. -/
def Document.new (id : String) : Document where
  current := defaultProfileName
  profiles := SortedMap.empty.insert defaultProfileName ⟨id, .empty⟩
  modeBindings := .empty
  upgradeFlags := SortedMap.ofList (Upgrade.all.map fun u => (u.name, true))

theorem Document.initial_eq {m : Type → Type} [Monad m] (fresh : List String → m String) :
    Document.initial fresh = (do return Document.new (← fresh [])) := rfl

theorem Document.get?_new {id name : String} {p : Profile}
    (h : (Document.new id).profiles.get? name = some p) :
    name = defaultProfileName ∧ p = ⟨id, .empty⟩ := by
  simp only [Document.new, SortedMap.get?_insert, SortedMap.get?_empty] at h
  split at h
  · rename_i hname
    cases h
    exact ⟨hname.symm, rfl⟩
  · cases h

theorem Document.soundWith_new {id : String} (hne : id ≠ "") :
    (Document.new id).SoundWith good := by
  have hidentified : (Document.new id).IdentifiedBut [] := by
    refine ⟨fun {name p} _ hp => ?_, fun {name name' p p'} _ _ hp hp' _ => ?_⟩
    · obtain ⟨-, rfl⟩ := get?_new hp
      exact hne
    · exact (get?_new hp).1.trans (get?_new hp').1.symm
  obtain ⟨hids_ne, hids_nodup⟩ := identifiedBut_nil_iff.mp hidentified
  have hdefault : (Document.new id).profiles.contains defaultProfileName = true :=
    SortedMap.contains_insert.mpr (Or.inl rfl)
  refine ⟨⟨SortedMap.isEmpty_eq_false_iff.mpr ⟨_, hdefault⟩, ?_, hdefault, hids_ne, hids_nodup⟩, ?_⟩
  · rw [Bool.eq_false_iff, Ne, SortedMap.contains_iff]
    rintro ⟨p, hp⟩
    exact absurd (get?_new hp).1 (by decide)
  · intro name p hp key value hvalue
    obtain ⟨-, rfl⟩ := get?_new hp
    simp at hvalue

theorem Document.upToDate_new (id : String) : (Document.new id).UpToDate := by
  intro u _
  cases u <;> rfl

namespace Procedure

variable {s : Surroundings Effect Effect.Answer}

theorem ensures_decode {text : String} {ok : Document → History → Prop}
    {err : StoreError → History → Prop} :
    (decode text).Ensures s h ok err ↔
      match Document.decode? text with
      | none => err .corrupt h
      | some doc =>
        match doc.validate with
        | .ok () => ok doc h
        | .error e => err (.invalidDocument e) h := by
  unfold decode
  cases Document.decode? text with
  | none => rfl
  | some doc =>
    dsimp only
    cases doc.validate <;> rfl

/-- What is read is valid, and it is what is stored. -/
theorem ensures_readStored (fair : Fair initial s) (lasting : Setting.Lasting good)
    (hw : WrittenAre good h) :
    readStored.Ensures s h
      (fun doc h' => doc.validate = .ok () ∧ doc.ValuesAre good ∧ WrittenAre good h' ∧
        StoredIs initial h' doc)
      (fun e h' => WrittenAre good h' ∧ ReadFailure (h.stored initial) e) := by
  have hget : ∀ answer, OnlyLooks h (h ++ [⟨.get, answer⟩]) := fun answer =>
    (OnlyLooks.refl h).snoc rfl
  unfold readStored
  rw [ensures_bind, ensures_get]
  cases hs : s h .get with
  | error f => exact ⟨hw.onlyLooks (hget _), .fault f⟩
  | ok text =>
    have hstored : h.stored initial = text := (fair.get_eq h text hs).symm
    cases text with
    | some text =>
      refine ensures_decode.mpr ?_
      split
      · rename_i hdecode
        exact ⟨hw.onlyLooks (hget _), .corrupt hstored hdecode⟩
      · rename_i doc hdecode
        split
        · rename_i hvalid
          refine ⟨hvalid, lasting.decoded hdecode, hw.onlyLooks (hget _), text, ?_, Or.inl hdecode⟩
          exact ((hget _).stored_eq initial).trans hstored
        · rename_i e hinvalid
          exact ⟨hw.onlyLooks (hget _), .invalid hstored hdecode hinvalid⟩
    | none =>
      show Ensures s (do
        let doc ← Document.initial freshId
        persist doc
        return doc) _ _ _
      rw [Document.initial_eq, ensures_bind, ensures_bind, ensures_freshId, ensures_pure,
        ensures_bind, ensures_persist]
      have hlooks : ∀ answer id, OnlyLooks h (h ++ [⟨.get, answer⟩] ++ [⟨.freshId [], id⟩]) :=
        fun answer id => (hget answer).snoc rfl
      have hnew : (Document.new (s (h ++ [⟨.get, .ok none⟩]) (.freshId []))).SoundWith good :=
        Document.soundWith_new (fair.drawsFresh.ne _ _)
      split
      · exact ⟨hnew.validate_eq_ok, hnew.values, (hw.onlyLooks (hlooks _ _)).set hnew _,
          storedIs_set⟩
      · rename_i f _
        exact ⟨(hw.onlyLooks (hlooks _ _)).set hnew _, .fault f⟩

/-- The document that an operation begins with is sound and up to date, and it is
what is stored by then. -/
theorem ensures_read (fair : Fair initial s) (lasting : Setting.Lasting good)
    (hw : WrittenAre good h) :
    read.Ensures s h (fun doc h' => Settled good initial h' doc)
      (fun e h' => WrittenAre good h' ∧ ReadFailure (h.stored initial) e) := by
  unfold read
  rw [ensures_bind]
  refine (ensures_readStored fair lasting hw).mono ?_ fun _ _ he => he
  rintro doc h' ⟨hvalid, hvalues, hw', hstored⟩
  rw [ensures_bind]
  refine (ensures_ensureUpgraded fair.drawsFresh lasting hvalid hvalues hw' hstored).mono ?_ ?_
  · rintro r h'' ⟨hsound, hupToDate, hw'', hstored'⟩
    exact ⟨hsound, hupToDate, hw'', hstored'⟩
  · rintro e h'' ⟨hw'', f, rfl⟩
    exact ⟨hw'', .fault f⟩

/-- Where the stored text cannot be had, reading fails. -/
theorem ensures_read_fault {ok : Document → History → Prop} {err : StoreError → History → Prop}
    {f : Fault} (hget : s h .get = .error f) :
    read.Ensures s h ok err ↔ err (.ofFault f) (h ++ [⟨.get, .error f⟩]) := by
  unfold read readStored
  rw [ensures_bind, ensures_bind, ensures_get, hget]

/-- Where a text is stored, reading is to decode it and to bring the document up to date. -/
theorem ensures_read_text {ok : Document → History → Prop} {err : StoreError → History → Prop}
    {text : String} (hget : s h .get = .ok (some text)) :
    read.Ensures s h ok err ↔
      match Document.decode? text with
      | none => err .corrupt (h ++ [⟨.get, .ok (some text)⟩])
      | some doc =>
        match doc.validate with
        | .ok () =>
          doc.ensureUpgraded.Ensures s (h ++ [⟨.get, .ok (some text)⟩])
            (fun r h' => ok r.document h') err
        | .error e => err (.invalidDocument e) (h ++ [⟨.get, .ok (some text)⟩]) := by
  unfold read readStored
  rw [ensures_bind, ensures_bind, ensures_get, hget]
  refine ensures_decode.trans ?_
  cases Document.decode? text with
  | none => rfl
  | some doc =>
    dsimp only
    cases doc.validate with
    | error e => rfl
    | ok _ =>
      dsimp only
      rw [ensures_bind]
      rfl

/-- Where nothing is stored, reading is to draw an id and to store a new document. -/
theorem ensures_read_absent {ok : Document → History → Prop} {err : StoreError → History → Prop}
    (draws : DrawsFresh s) (hget : s h .get = .ok none) :
    read.Ensures s h ok err ↔
      Ensures s (do
        let doc := Document.new (← freshId [])
        persist doc
        return doc) (h ++ [⟨.get, .ok none⟩]) ok err := by
  unfold read readStored
  rw [ensures_bind, ensures_bind, ensures_get, hget]
  show Ensures s (do
    let doc ← Document.initial freshId
    persist doc
    return doc) _ _ _ ↔ _
  rw [Document.initial_eq]
  simp only [bind_assoc, pure_bind, ensures_bind, ensures_freshId]
  generalize hid : s (h ++ [⟨.get, .ok none⟩]) (.freshId []) = id
  have hne : id ≠ "" := hid ▸ draws.ne _ _
  have hnew : (Document.new id).SoundWith fun _ => True := Document.soundWith_new hne
  simp only [ensures_pure, ensureUpgraded_eq_pure hnew.isNormal (Document.upToDate_new id)]

/-- Where a document is stored that lacks nothing, reading is to be given it. -/
theorem ensures_read_present {ok : Document → History → Prop} {err : StoreError → History → Prop}
    {text : String} (hget : s h .get = .ok (some text)) (hdecode : Document.decode? text = some doc)
    (hsound : doc.Sound) (hupToDate : doc.UpToDate) :
    read.Ensures s h ok err ↔ ok doc (h ++ [⟨.get, .ok (some text)⟩]) := by
  rw [ensures_read_text hget, hdecode]
  dsimp only
  rw [hsound.validate_eq_ok, ensureUpgraded_eq_pure hsound.isNormal hupToDate]
  rfl

/-! ## §3 Committing -/

/-- A committed document is stored before it is announced. -/
theorem ensures_commit (hw : WrittenAre good h) (hsound : doc.SoundWith good)
    (hupToDate : doc.UpToDate) :
    (commit doc).Ensures s h (fun _ h' => Settled good initial h' doc)
      (fun e h' => WrittenAre good h' ∧ ∃ f, e = .ofFault f) := by
  unfold commit
  rw [ensures_bind, ensures_persist]
  split
  · rw [ensures_publish]
    refine ⟨hsound, hupToDate, (hw.set hsound (.ok ())).snoc rfl, ?_⟩
    · obtain ⟨text, htext, hdoc⟩ : StoredIs initial (h ++ [⟨.set doc.encode, .ok ()⟩]) doc :=
        storedIs_set
      exact ⟨text, by rw [stored_append, htext]; rfl, hdoc⟩
  · rename_i f _
    exact ⟨hw.set hsound _, f, rfl⟩

end Procedure

end SettingProfiles
