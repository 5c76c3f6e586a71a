/-
SettingProfiles.Proofs.Store.UpgradedOnce — a document is brought up to date once.

Whatever document is brought up to date, what comes out needs no repair and has no
upgrade pending, so a second time nothing is asked at all. For the store this means
that, once an operation other than `reset` has returned, what is stored lacks nothing
for as long as anything is stored: an operation that changes nothing asks for the
stored text and is done.

  §1 Documents  — what `ensureUpgraded` returns lacks nothing.
  §2 Texts      — `UpToDateText`: the stored text, if any, is that of a document
                  that lacks nothing.
  §3 Operations — they keep `UpToDateText`, and all but `reset` bring it about.
  §4 Looking    — the operations that change nothing.
  §5 Runs       — `upgrading_is_idempotent_then_free`.
-/
import SettingProfiles.Proofs.Document.RoundTrip
import SettingProfiles.Proofs.Store.Failures

namespace SettingProfiles

open History (OnlyLooks StoredIs)

variable {initial : Option String} {h : History} {doc : Document}
  {s : Surroundings Effect Effect.Answer}

/-! ## §1 Documents -/

namespace Document

/-- Which profiles lack an id of their own does not depend on the current name. -/
theorem unidentified_repairCurrent (doc : Document) :
    doc.repairCurrent.unidentified = doc.unidentified := by
  simp [unidentified]

/-- Profiles with ids of their own are all that repair has to see to, apart from the
current name; the document may even have no profile. -/
theorem isNormal_repairCurrent (hids : doc.IdentifiedBut []) :
    doc.repairCurrent.isNormal = true := by
  have hunidentified : doc.repairCurrent.unidentified = [] := by
    rw [unidentified_repairCurrent]
    exact unidentified_eq_nil_iff.mpr (identifiedBut_nil_iff.mp hids)
  have hcurrent : doc.repairCurrent.currentDangles = false := by
    cases hempty : doc.profiles.isEmpty with
    | true => simp [currentDangles, hempty]
    | false => simp [currentDangles, contains_current_repairCurrent hempty]
  simp [isNormal, hunidentified, hcurrent]

end Document

namespace Procedure

theorem ensures_normalise_isNormal (draws : DrawsFresh s) (doc : Document) :
    (doc.normalise freshId).Ensures s h (fun d _ => d.isNormal = true) fun _ _ => False := by
  unfold Document.normalise
  rw [ensures_bind]
  refine (ensures_assignIds draws doc).mono ?_ fun _ _ hf => hf
  intro d h' hd
  exact Document.isNormal_repairCurrent hd.2.1

/-- An upgrade that returns has found the document valid, so a document that needs no
repair needs none afterwards. -/
theorem ensures_applyUpgrade_isNormal (hnormal : doc.isNormal = true) (u : Upgrade)
    {us : List Upgrade} (hrecorded : RecordedBut (u :: us) doc) :
    (doc.applyUpgrade u).Ensures s h (fun d _ => d.isNormal = true ∧ RecordedBut us d)
      fun _ _ => True := by
  cases hvalid : doc.validate with
  | error e =>
    unfold Document.applyUpgrade Upgrade.apply
    rw [ensures_bind, hvalid]
    exact (ensures_readLegacy u.legacyKeys).mono (fun _ _ _ => trivial) fun _ _ _ => trivial
  | ok _ =>
    have hsound : doc.Sound := Document.sound_of_isNormal hvalid hnormal
    refine (ensures_applyUpgrade hvalid u).mono ?_ fun _ _ _ => trivial
    rintro d h' ⟨-, legacy, rfl⟩
    exact ⟨((Upgrade.sound_fillAll hsound _).markApplied _).isNormal, hrecorded.upgraded _⟩

/-- What has been brought up to date lacks nothing, whatever it was before. -/
theorem ensures_ensureUpgraded_lacking_nothing (draws : DrawsFresh s) (doc : Document) :
    doc.ensureUpgraded.Ensures s h
      (fun r _ => r.document.isNormal = true ∧ r.document.UpToDate) fun _ _ => True := by
  refine (ensures_ensureUpgraded_of
    (I := fun us d _ => d.isNormal = true ∧ RecordedBut us d) ?_ (fun _ _ _ _ hd => hd) ?_).mono
    (fun r _ hd => ⟨hd.1, hd.2.upToDate⟩) fun _ _ he => he
  · exact (ensures_normalise_isNormal draws doc).mono
      (fun d _ hnormal => ⟨hnormal, recordedBut_pending d⟩) fun _ _ hf => hf.elim
  · intro u us d h' hd
    exact ensures_applyUpgrade_isNormal hd.1 u hd.2

/-- Bringing a document up to date a second time asks nothing of anyone. -/
theorem converse_ensureUpgraded_again (draws : DrawsFresh s) {r : Upgraded}
    (hr : (doc.ensureUpgraded.run.converse s h).1 = .ok r)
    (s' : Surroundings Effect Effect.Answer) (h' : History) :
    r.document.ensureUpgraded.run.converse s' h' = (.ok ⟨r.document, [], 0⟩, h') := by
  have hlacks := ensures_ensureUpgraded_lacking_nothing (h := h) draws doc
  unfold Ensures Program.Ensures at hlacks
  rw [hr] at hlacks
  rw [ensureUpgraded_eq_pure hlacks.1 hlacks.2]
  rfl

end Procedure

/-! ## §2 Texts -/

/-- The stored text, if there is one, is that of a document that lacks nothing, as far
as it can be read. -/
def UpToDateText (stored : Option String) : Prop :=
  ∀ text ∈ stored, ∃ doc : Document, doc.Sound ∧ doc.UpToDate ∧
    (Document.decode? text = some doc ∨ text = doc.encode)

theorem upToDateText_none : UpToDateText none := by simp [UpToDateText]

theorem History.StoredIs.upToDateText (hs : StoredIs initial h doc) (hsound : doc.Sound)
    (hupToDate : doc.UpToDate) : UpToDateText (h.stored initial) := by
  obtain ⟨text, hstored, hdoc⟩ := hs
  intro text' htext'
  rw [hstored] at htext'
  cases htext'
  exact ⟨doc, hsound, hupToDate, hdoc⟩

/-- What is read from such a text lacks nothing: writing and reading change floats at
most. -/
theorem UpToDateText.decoded {text : String} (hkept : UpToDateText (some text))
    (hdecode : Document.decode? text = some doc) : doc.Sound ∧ doc.UpToDate := by
  obtain ⟨d, hsound, hupToDate, hd | rfl⟩ := hkept text rfl
  · rw [hdecode] at hd
    cases hd
    exact ⟨hsound, hupToDate⟩
  · rw [Document.decode?_encode] at hdecode
    refine ⟨hsound.reread hdecode, hupToDate.of_upgradeFlags ?_⟩
    obtain ⟨profiles, -, rfl⟩ := Option.map_eq_some_iff.mp hdecode
    rfl

/-! ## §3 Operations -/

namespace Procedure

/-- Reading keeps `UpToDateText`, even if it fails: it stores nothing but a new
document. -/
theorem ensures_read_upToDateText (fair : Fair initial s) (hkept : UpToDateText initial) :
    read.Ensures s [] (fun _ h => UpToDateText (h.stored initial))
      fun _ (h : History) => UpToDateText (h.stored initial) := by
  have hlook : UpToDateText (History.stored initial [⟨.get, s [] .get⟩]) := hkept
  cases hget : s [] .get with
  | error f =>
    rw [hget] at hlook
    rw [ensures_read_fault hget]
    exact hlook
  | ok text =>
    have hinitial : text = initial := fair.get_eq [] text hget
    cases text with
    | none =>
      rw [ensures_read_absent fair.drawsFresh hget, ensures_bind, ensures_freshId, ensures_bind,
        ensures_persist]
      generalize hid : s _ (.freshId []) = id
      have hne : id ≠ "" := hid ▸ fair.drawsFresh.ne _ _
      have hnew : (Document.new id).SoundWith fun _ => True := Document.soundWith_new hne
      split
      · exact History.storedIs_set.upToDateText hnew.toSound (Document.upToDate_new id)
      · rw [← hinitial]
        exact upToDateText_none
    | some text =>
      cases hdecode : Document.decode? text with
      | none =>
        rw [hget] at hlook
        rw [ensures_read_text hget, hdecode]
        exact hlook
      | some doc =>
        obtain ⟨hsound, hupToDate⟩ := (hinitial ▸ hkept).decoded hdecode
        rw [hget] at hlook
        rw [ensures_read_present hget hdecode hsound hupToDate]
        exact hlook

theorem ensures_reset_absent :
    (Operation.reset.body).Ensures s h (fun _ h' => h'.stored initial = none) fun _ _ => True := by
  unfold Operation.body
  rw [ensures_bind, ensures_delete]
  cases s h .delete with
  | ok _ =>
    rw [ensures_publish, History.stored_append, History.stored_append]
    rfl
  | error f => trivial

end Procedure

namespace Operation

open Procedure

theorem upToDateText_afterReading (fair : Fair initial s) (hkept : UpToDateText initial)
    (op : Operation) : UpToDateText ((op.afterReading s []).stored initial) :=
  op.afterReading_of_read (P := fun h => UpToDateText (h.stored initial)) hkept
    (ensures_read_upToDateText fair hkept)

/-- An operation that returns leaves a text that lacks nothing, or none. -/
theorem ensures_body_upToDateText (fair : Fair initial s) (op : Operation) :
    op.body.Ensures s [] (fun _ h => UpToDateText (h.stored initial)) fun _ _ => True := by
  have hsettled := ensures_body fair Setting.lasting_true op op.valuesAre_true (.nil _)
  by_cases hop : op = .reset
  · subst hop
    have hreset : Operation.reset.body.Ensures s [] (fun _ h => h.stored initial = none)
        fun _ _ => True := ensures_reset_absent
    refine hreset.mono (fun _ h habsent => ?_) fun _ _ h => h
    rw [habsent]
    exact upToDateText_none
  · refine hsettled.mono (fun _ h hs => ?_) fun _ _ _ => trivial
    obtain ⟨doc, hdoc⟩ := hs.2 hop
    exact hdoc.stored.upToDateText hdoc.sound.toSound hdoc.upToDate

/-- After an operation the text lacks nothing if the operation returned, or if the text
lacked nothing before. -/
theorem ensures_outcome_upToDateText (fair : Fair initial s) (h : History) (op : Operation) :
    op.outcome.Ensures s h fun o (h' : History) =>
      o.result.isOk ∨ UpToDateText (h.stored initial) → UpToDateText (h'.stored initial) := by
  rw [Program.ensures_after]
  have hreturned := ensures_body_upToDateText (fair.after h) op
  have hkept := ensures_body_unchanged (s := s.after h) (h := []) op
  refine (ensures_outcome (hreturned.and hkept)).mono ?_
  rintro o later (⟨r, rfl, hr⟩ | ⟨e, rfl, he⟩) hbefore
  · rw [History.stored_append]
    exact hr.1
  · rw [History.stored_append, he.2.stored_eq]
    refine upToDateText_afterReading (fair.after h) (hbefore.resolve_left ?_) op
    intro hok
    cases hok

theorem upToDateText_step (fair : Fair initial s) (h : History) (op : Operation)
    (hbefore : (op.step s h).outcome.result.isOk = true ∨ UpToDateText (h.stored initial)) :
    UpToDateText (History.stored initial (h ++ (op.step s h).calls)) := by
  have hkept := ensures_outcome_upToDateText fair h op
  unfold Program.Ensures at hkept
  rw [converse_outcome_eq_step] at hkept
  exact hkept hbefore

theorem ensures_inTurn_upToDateText (fair : Fair initial s) (ops : List Operation)
    (hkept : UpToDateText (h.stored initial)) :
    (inTurn ops).Ensures s h fun _ (h' : History) => UpToDateText (h'.stored initial) := by
  induction ops generalizing h with
  | nil => exact hkept
  | cons op ops ih =>
    rw [ensures_inTurn_cons]
    exact (ensures_outcome_upToDateText fair h op).mono fun o h' ho => ih (ho (.inr hkept))

/-! ## §4 Looking -/

/-- The operation returns something of the stored document and changes nothing. -/
def looks : Operation → Bool
  | .prepare | .list | .profile _ | .current | .contains _ | .modeBinding _ | .snapshot
  | .exportDocument => true
  | _ => false

/-- What looking asks, if the stored text lacks nothing: one `get`. -/
theorem ensures_body_looks (fair : Fair initial s) {text : String}
    (hstored : h.stored initial = some text) (hdecode : Document.decode? text = some doc)
    (hsound : doc.Sound) (hupToDate : doc.UpToDate) {op : Operation} (hop : op.looks = true) :
    op.body.Ensures s h (fun _ h' => h' = h ++ [⟨.get, s h .get⟩])
      fun _ h' => h' = h ++ [⟨.get, s h .get⟩] := by
  have hread := ensures_read_lacking_nothing (h := h) (s := s) hdecode hsound.isNormal hupToDate
    fun t ht => (fair.get_eq h t ht).trans hstored
  -- nothing is asked once the document has been read
  have hpure : ∀ {α : Type} (f : Document → α),
      (read >>= fun d => pure (f d) : Procedure α).Ensures s h
        (fun _ h' => h' = h ++ [⟨.get, s h .get⟩]) fun _ h' => h' = h ++ [⟨.get, s h .get⟩] := by
    intro α f
    rw [ensures_bind]
    exact hread.mono (fun _ _ hd => hd.2) fun _ _ he => he
  cases op with
  | profile name =>
    show (read >>= fun d => ofDocument (d.profile name)).Ensures s h _ _
    rw [ensures_bind]
    refine hread.mono (fun d h' hd => ?_) fun _ _ he => he
    rw [ensures_ofDocument]
    cases d.profile name <;> exact hd.2
  | exportDocument => exact hread.mono (fun _ _ hd => hd.2) fun _ _ he => he
  | prepare => exact hpure _
  | list => exact hpure _
  | current => exact hpure _
  | contains name => exact hpure _
  | modeBinding mode => exact hpure _
  | snapshot => exact hpure _
  | _ => cases hop

theorem ensures_inTurn_looks (fair : Fair initial s) {text : String}
    (hstored : h.stored initial = some text) (hdecode : Document.decode? text = some doc)
    (hsound : doc.Sound) (hupToDate : doc.UpToDate) {ops : List Operation}
    (hops : ∀ op ∈ ops, op.looks = true) :
    (inTurn ops).Ensures s h fun _ h' =>
      h'.map Exchange.question = h.map Exchange.question ++ List.replicate ops.length .get := by
  induction ops generalizing h with
  | nil =>
    show h.map Exchange.question = _
    simp
  | cons op ops ih =>
    rw [ensures_inTurn_cons]
    refine (ensures_outcome (ensures_body_looks fair hstored hdecode hsound hupToDate
      (hops op (by simp)))).mono ?_
    intro o h' ho
    obtain rfl : h' = h ++ [⟨.get, s h .get⟩] := by
      obtain ⟨_, _, hget⟩ | ⟨_, _, hget⟩ := ho <;> exact hget
    have hlook : OnlyLooks h (h ++ [⟨.get, s h .get⟩]) := (OnlyLooks.refl h).snoc rfl
    refine (ih ((hlook.stored_eq initial).trans hstored)
      fun op hop => hops op (List.mem_cons_of_mem _ hop)).mono ?_
    intro outcomes h' hcalls
    show h'.map Exchange.question = _
    rw [hcalls]
    simp [List.replicate_succ]

/-! ## §5 Runs -/

/-- **A document is brought up to date once, and from then on it costs nothing.**
Whatever document is brought up to date, against whatever surroundings: if that
returns, doing the same with what came out, against any surroundings, returns it as it
is, with no upgrade applied, no write, and not one call.

Hence for the store: let an operation other than `reset` have returned, and anything
come after it. If the stored text can be read at some later point, then any operations
that only look, in any number and order, ask for the stored text once each, and for
nothing else. -/
theorem upgrading_is_idempotent_then_free (fair : Fair initial s) :
    (∀ (t : Surroundings Effect Effect.Answer), DrawsFresh t →
      ∀ (h : History) (doc : Document) (r : Upgraded),
      (doc.ensureUpgraded.run.converse t h).1 = .ok r →
      ∀ (t' : Surroundings Effect Effect.Answer) (h' : History),
        r.document.ensureUpgraded.run.converse t' h' = (.ok ⟨r.document, [], 0⟩, h')) ∧
    ∀ (before between last : List Operation) (op : Operation), op ≠ .reset →
      (∀ look ∈ last, look.looks = true) →
      let done := op.outcome.converse s ((inTurn before).converse s []).2
      let later : History := ((inTurn between).converse s done.2).2
      done.1.result.isOk →
      (∃ text ∈ later.stored initial, (Document.decode? text).isSome = true) →
      ((inTurn last).converse s later).2.map Exchange.question
        = later.map Exchange.question ++ List.replicate last.length .get := by
  refine ⟨fun t draws h doc r hr => converse_ensureUpgraded_again draws hr, ?_⟩
  intro before between last op _ hlast done later hok hreadable
  obtain ⟨text, hstored, hdecodes⟩ := hreadable
  obtain ⟨doc, hdecode⟩ := Option.isSome_iff_exists.mp hdecodes
  have hdone : UpToDateText (History.stored initial done.2) :=
    ensures_outcome_upToDateText fair _ op (.inl hok)
  have hlater : UpToDateText (later.stored initial) :=
    ensures_inTurn_upToDateText fair between hdone
  rw [hstored] at hlater
  obtain ⟨hsound, hupToDate⟩ := hlater.decoded hdecode
  exact ensures_inTurn_looks fair hstored hdecode hsound hupToDate hlast

/-- The theorem for a document with a profile that has no id, and for three looks at a
storage that was empty before it was first looked at. -/
theorem upgrading_is_idempotent_then_free_ordinary :
    (∃ r : Upgraded,
      ((Document.new "").ensureUpgraded.run.converse (ordinary none) []).1 = .ok r ∧
      ∀ (t' : Surroundings Effect Effect.Answer) (h' : History),
        r.document.ensureUpgraded.run.converse t' h' = (.ok ⟨r.document, [], 0⟩, h')) ∧
    Fair none (ordinary none) ∧
    let later := ((inTurn [.save "" .empty]).converse (ordinary none)
      ((outcome .snapshot).converse (ordinary none) []).2).2;
    ((inTurn [.list, .current, .list]).converse (ordinary none) later).2.map Exchange.question
      = later.map Exchange.question ++ [.get, .get, .get] := by
  have fair : Fair none (ordinary none) := fair_ordinary none
  obtain ⟨honce, hfree⟩ := upgrading_is_idempotent_then_free fair
  refine ⟨?_, fair, ?_⟩
  · have hok :
        ((Document.new "").ensureUpgraded.run.converse (ordinary none) []).1.isOk = true := by
      decide +kernel
    cases hr : ((Document.new "").ensureUpgraded.run.converse (ordinary none) []).1 with
    | error e =>
      rw [hr] at hok
      cases hok
    | ok r => exact ⟨r, rfl, honce _ fair.drawsFresh [] _ r hr⟩
  · have hnew : (Document.new "i").SoundWith fun v => v.reread?.isSome = true :=
      Document.soundWith_new (by decide)
    refine hfree [] [.save "" .empty] [.list, .current, .list] .snapshot (by decide) (by decide)
      rfl ⟨(Document.new "i").encode, rfl, ?_⟩
    rw [Document.decode?_encode]
    exact Document.reread?_isSome_iff.mpr hnew.values

end Operation

end SettingProfiles
