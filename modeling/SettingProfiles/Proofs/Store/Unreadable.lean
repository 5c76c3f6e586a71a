/-
SettingProfiles.Proofs.Store.Unreadable — a text that cannot be read is never lost.

If the stored text is not that of a valid document, no operation touches it: those that
begin by reading ask for it and fail, and nothing is stored or deleted until somebody
asks for that, by importing a valid document or by deleting the stored one. Both
succeed, whatever text was stored, and afterwards the store can be read again.

  §1 Bodies    — operations that begin by reading, and those that only look.
  §2 Refusal   — what an operation asks where the text cannot be read.
  §3 Importing — a valid document takes the place of the text.
  §4 Deleting  — the first look afterwards finds a new document.
  §5 Runs      — `unreadable_text_is_kept`.
-/
import SettingProfiles.Proofs.Store.Announcements
import SettingProfiles.Proofs.Store.Importing
import SettingProfiles.Proofs.Store.ReadBack

namespace SettingProfiles

open History (OnlyLooks)

variable {initial : Option String} {h h' : History} {doc : Document}
  {s : Surroundings Effect Effect.Answer} {text : String}

/-- The text is not that of a document, or that of one that is not valid. -/
theorem not_readable_iff :
    ¬ Readable (some text) ↔ Document.decode? text = none ∨
      ∃ doc e, Document.decode? text = some doc ∧ doc.validate = .error e := by
  unfold Readable
  cases hdecode : Document.decode? text with
  | none => simp [hdecode]
  | some doc =>
    cases hvalid : doc.validate <;> simp [hdecode, hvalid]

namespace Operation

open Procedure

/-! ## §1 Bodies -/

/-- The stored text is given up for another one, or for none, without being read. -/
def Renews : Operation → Prop
  | .reset => True
  | .importDocument doc => doc.validate = .ok ()
  | _ => False

theorem body_of_reads {op : Operation} (hop : op.reads = true) :
    ∃ f : Document → Procedure op.Result, op.body = Procedure.read >>= f := by
  cases op with
  | importDocument | reset => cases hop
  | save name settings =>
    have hname : name ≠ "" := by simpa [reads] using hop
    show ∃ f, Procedure.save name settings = _
    unfold Procedure.save
    rw [if_neg hname]
    exact ⟨_, rfl⟩
  | exportDocument => exact ⟨pure, (bind_pure Procedure.read).symm⟩
  | _ => exact ⟨_, rfl⟩

/-- Looking is to read and to return something of the document; only a profile may be
missing there. -/
theorem body_of_looks {op : Operation} (hop : op.looks = true) :
    ∃ f : Document → Except DocumentError op.Result,
      op.body = (Procedure.read >>= fun doc => ofDocument (f doc)) ∧
      ∀ doc e, f doc = .error e → ∃ name, op = .profile name ∧ doc.contains name = false ∧
        e = .notFound name := by
  cases op with
  | profile name =>
    refine ⟨fun doc => doc.profile name, rfl, fun doc e he => ⟨name, rfl, ?_⟩⟩
    have he : doc.profile name = .error e := he
    have hname : doc.profiles.get? name = none := by
      unfold Document.profile at he
      split at he
      · cases he
      · assumption
    exact ⟨by simp [Document.contains, SortedMap.contains, hname], Document.profile_eq_error he⟩
  | exportDocument => exact ⟨.ok, (bind_pure Procedure.read).symm, fun _ _ he => by cases he⟩
  | prepare | list | current | contains | modeBinding | snapshot =>
    exact ⟨fun doc => .ok _, rfl, fun _ _ he => by cases he⟩
  | _ => cases hop

/-! ## §2 Refusal -/

/-- Where the text cannot be read, an operation that begins by reading asks for it and
fails. -/
theorem ensures_body_refused (fair : Fair (some text) s) (hunreadable : ¬ Readable (some text))
    {op : Operation} (hop : op.reads = true) :
    op.body.Ensures s [] (fun _ _ => False) fun _ h' => h'.map Exchange.question = [.get] := by
  obtain ⟨f, hf⟩ := body_of_reads hop
  rw [hf, ensures_bind]
  cases hget : s [] .get with
  | error fault =>
    rw [ensures_read_fault hget]
    rfl
  | ok found =>
    obtain rfl : found = some text := fair.get_eq [] found hget
    rw [ensures_read_text hget]
    obtain hdecode | ⟨doc, e, hdecode, hinvalid⟩ := not_readable_iff.mp hunreadable
    · rw [hdecode]
      rfl
    · rw [hdecode]
      dsimp only
      rw [hinvalid]
      rfl

/-- Where the text cannot be read, every operation fails that does not renew it, and asks
for the text at most. -/
theorem step_refused (fair : Fair initial s) (hstored : h.stored initial = some text)
    (hunreadable : ¬ Readable (some text)) {op : Operation} (hop : ¬ op.Renews) :
    (op.step s h).outcome.result.isOk = false ∧
      (op.step s h).calls.map Exchange.question = if op.reads then [.get] else [] := by
  cases hreads : op.reads with
  | true =>
    have hfair : Fair (some text) (s.after h) := hstored ▸ fair.after h
    rcases step_of_body (ensures_body_refused hfair hunreadable hreads) with
      ⟨r, -, hf⟩ | ⟨e, houtcome, hcalls⟩
    · exact hf.elim
    · rw [houtcome]
      exact ⟨rfl, hcalls⟩
  | false =>
    cases op with
    | reset => exact absurd trivial hop
    | importDocument doc =>
      cases hvalid : doc.validate with
      | ok _ => exact absurd hvalid hop
      | error e =>
        rw [step_importDocument_of_invalid hvalid]
        exact ⟨rfl, rfl⟩
    | save name settings =>
      obtain rfl : name = "" := by simpa [reads] using hreads
      exact ⟨rfl, rfl⟩
    | _ => cases hreads

/-- A run of such operations leaves the text. -/
theorem steps_refused (fair : Fair initial s) (hstored : h.stored initial = some text)
    (hunreadable : ¬ Readable (some text)) {ops : List Operation}
    (hops : ∀ op ∈ ops, ¬ op.Renews) :
    (∀ x ∈ steps s ops h, x.outcome.result.isOk = false ∧
      x.calls.map Exchange.question = if x.outcome.operation.reads then [.get] else []) ∧
    History.stored initial (h ++ (steps s ops h).flatMap Step.calls) = some text := by
  induction ops generalizing h with
  | nil => exact ⟨by simp [steps], by simpa [steps] using hstored⟩
  | cons op ops ih =>
    obtain ⟨hfails, hcalls⟩ := step_refused fair hstored hunreadable (hops op List.mem_cons_self)
    have hlooks : OnlyLooks h (h ++ (op.step s h).calls) := by
      refine ⟨_, rfl, fun x hx => ?_⟩
      have hquestion : x.question ∈ (op.step s h).calls.map Exchange.question :=
        List.mem_map_of_mem hx
      rw [hcalls] at hquestion
      split at hquestion
      · rw [List.mem_singleton.mp hquestion]
        rfl
      · cases hquestion
    obtain ⟨hlater, hkept⟩ := ih ((hlooks.stored_eq initial).trans hstored)
      fun op hop => hops op (List.mem_cons_of_mem _ hop)
    refine ⟨fun x hx => ?_, by simpa [steps] using hkept⟩
    rcases List.mem_cons.mp hx with rfl | hx
    · refine ⟨hfails, ?_⟩
      rw [operation_step]
      exact hcalls
    · exact hlater x hx

/-! ## §3 Importing -/

/-- A valid document whose floats can be read from their own text is read again once it has
been imported. -/
theorem step_importDocument_readable (fair : Fair initial s) (hvalid : doc.validate = .ok ())
    (hfloats : ∀ x, doc.Holds (.float x) →
      (Setting.ofText? (Setting.ownText (.float x))).isSome = true)
    (huntroubled : ((importDocument doc).step s h).calls.Untroubled) :
    ∃ (new : String) (doc' : Document),
      ((importDocument doc).step s h).outcome = ⟨importDocument doc, .ok (.of doc')⟩ ∧
      History.stored initial (h ++ ((importDocument doc).step s h).calls) = some new ∧
      Document.decode? new = some doc' ∧ doc'.Sound := by
  have hvalues : doc.ValuesAre Setting.IsFinite := by
    simp only [Setting.ofText?_ownText, Setting.reread?_isSome_iff] at hfloats
    refine (Document.valuesAre_iff_floats fun v hv => ?_).mpr hfloats
    rw [← Setting.reread?_isSome_iff, Setting.reread?_of_not_float hv]
    rfl
  have hupgrade : doc.upgradeDetached.Ensures (s.after h) []
      (fun r _ => r.document.SoundWith Setting.IsFinite) fun _ _ => True :=
    (ensures_upgradeDetached (fair.after h).drawsFresh Setting.lasting_isFinite hvalid
      hvalues).mono (fun _ _ hr => hr.1) fun _ _ _ => trivial
  obtain ⟨r, houtcome, final, hfinal, rfl, hcalls⟩ := step_of_delivers
    (delivers_importDocument hvalid) (ensures_importDocument_replaces hupgrade) huntroubled
  obtain ⟨doc', hdecode⟩ :=
    Option.isSome_iff_exists.mp (Document.decode?_encode_isSome_iff.mpr hfinal.values)
  have hreread : final.reread? = some doc' := (Document.decode?_encode final).symm.trans hdecode
  refine ⟨final.encode, doc', ?_, ?_, hdecode, hfinal.toSound.reread hreread⟩
  · rw [houtcome, (Document.readAs_of_reread? hreread).snapshot_eq]
  · rw [History.stored_append]
    exact hcalls.stored_eq _

/-! ## §4 Deleting -/

theorem delivers_reset : Operation.reset.body.Delivers fun _ => True := by
  have hdelete : Procedure.delete.Delivers fun _ => True := by
    refine .ask fun a ha => ?_
    cases a with
    | ok _ => exact .done trivial
    | error f => cases ha
  exact hdelete.bind fun _ _ => .ask fun _ _ => .done trivial

/-- Deleting needs nothing of the text. -/
theorem step_reset (huntroubled : (reset.step s h).calls.Untroubled) :
    (reset.step s h).outcome = ⟨.reset, .ok ()⟩ ∧
      ∀ initial, History.stored initial (h ++ (reset.step s h).calls) = none := by
  have hbody (held : Option String) : Operation.reset.body.Ensures (s.after h) []
      (fun _ h' => h'.stored held = none) fun _ _ => True := ensures_reset_absent
  refine ⟨?_, fun initial => ?_⟩
  · obtain ⟨r, houtcome, -⟩ := step_of_delivers delivers_reset (hbody none) huntroubled
    exact houtcome
  · obtain ⟨r, -, hstored⟩ :=
      step_of_delivers delivers_reset (hbody (h.stored initial)) huntroubled
    rw [History.stored_append]
    exact hstored

/-- The calls by which a new document is made. -/
def creation (id : String) : History :=
  [⟨.get, .ok none⟩, ⟨.freshId [], id⟩, ⟨.set (Document.new id).encode, .ok ()⟩]

/-- Where nothing is stored, the document that is read is a new one, and it is stored. -/
theorem ensures_read_new (fair : Fair none s) :
    Procedure.read.Ensures s []
      (fun d h' => ∃ id, id ≠ "" ∧ d = Document.new id ∧ h' = creation id)
      fun _ h' => ¬ h'.Untroubled := by
  cases hget : s [] .get with
  | error f =>
    rw [ensures_read_fault hget]
    intro huntroubled
    cases huntroubled _ (List.mem_singleton_self _)
  | ok found =>
    obtain rfl : found = none := fair.get_eq [] found hget
    rw [ensures_read_absent fair.drawsFresh hget, ensures_bind, ensures_freshId, ensures_bind,
      ensures_persist]
    have hne := fair.drawsFresh.ne [⟨.get, .ok none⟩] []
    split
    · exact ⟨_, hne, rfl, rfl⟩
    · intro huntroubled
      cases huntroubled _ (List.mem_append_right _ (List.mem_singleton_self _))

/-- Where nothing is stored, a look makes a new document, and finds there what it looks
for, unless that is a profile of another name than the new one's. -/
theorem step_look_new (fair : Fair initial s) (habsent : h.stored initial = none) {op : Operation}
    (hop : op.looks = true) (huntroubled : (op.step s h).calls.Untroubled) :
    ∃ id, id ≠ "" ∧ (op.step s h).calls = creation id ∧
      ((op.step s h).outcome.result.isOk = true ∨
        ∃ name, op = .profile name ∧ name ≠ Document.defaultProfileName ∧
          (op.step s h).outcome = ⟨op, .error ⟨op, .notFound name⟩⟩) := by
  obtain ⟨f, hbody, hmissing⟩ := body_of_looks hop
  have hfair : Fair none (s.after h) := habsent ▸ fair.after h
  have hlook : op.body.Ensures (s.after h) [] (fun _ h' => ∃ id, id ≠ "" ∧ h' = creation id)
      fun e h' => h'.Untroubled → ∃ id, id ≠ "" ∧ h' = creation id ∧
        ∃ name, op = .profile name ∧ name ≠ Document.defaultProfileName ∧ e = .notFound name := by
    rw [hbody, ensures_bind]
    refine (ensures_read_new hfair).mono ?_ fun _ _ htrouble huntroubled =>
      absurd huntroubled htrouble
    rintro d h' ⟨id, hne, rfl, rfl⟩
    rw [ensures_ofDocument]
    cases hfound : f (Document.new id) with
    | ok r => exact ⟨id, hne, rfl⟩
    | error e =>
      intro _
      obtain ⟨name, hname, habsent, rfl⟩ := hmissing _ e hfound
      refine ⟨id, hne, rfl, name, hname, ?_, rfl⟩
      rintro rfl
      exact absurd habsent (by simp [Document.contains, Document.new, SortedMap.contains_insert])
  rcases step_of_body hlook with ⟨r, houtcome, id, hne, hcalls⟩ | ⟨e, houtcome, hfailed⟩
  · refine ⟨id, hne, hcalls, .inl ?_⟩
    rw [houtcome]
    rfl
  · obtain ⟨id, hne, hcalls, name, hname, hother, rfl⟩ := hfailed huntroubled
    exact ⟨id, hne, hcalls, .inr ⟨name, hname, hother, houtcome⟩⟩

/-! ## §5 Runs -/

/-- **A text that cannot be read is kept until it is given up for another one.** Let the
stored text not be that of a document, or that of one that is not valid. Any operations
that come, but for deleting and for importing valid documents, all fail, whatever else
goes wrong; each asks for the text at most, and the text is still stored. From there a
valid document can be imported, if no call goes wrong, and if its floats can be read from
their own text, then what is stored is the text of a sound document, the one that
importing returned. Or the text can be deleted: a look at the store then makes a new
document, which is stored and sound and can be read, and returns what it looks for,
unless it asks for a profile by a name that the new document does not have. -/
theorem unreadable_text_is_kept (fair : Fair (some text) s)
    (hunreadable : Document.decode? text = none ∨
      ∃ doc e, Document.decode? text = some doc ∧ doc.validate = .error e)
    {ops : List Operation} (hops : ∀ op ∈ ops, ¬ op.Renews) :
    let run := steps s ops []
    let k := run.flatMap Step.calls
    (∀ x ∈ run, x.outcome.result.isOk = false ∧
      x.calls.map Exchange.question = if x.outcome.operation.reads then [.get] else []) ∧
    History.stored (some text) k = some text ∧
    (∀ doc : Document, doc.validate = .ok () →
      (∀ x, doc.Holds (.float x) →
        (Setting.ofText? (Setting.ownText (.float x))).isSome = true) →
      let x := (importDocument doc).step s k
      x.calls.Untroubled → ∃ (new : String) (doc' : Document),
        x.outcome = ⟨importDocument doc, .ok (.of doc')⟩ ∧
        History.stored (some text) (k ++ x.calls) = some new ∧
        Document.decode? new = some doc' ∧ doc'.Sound) ∧
    ∀ look : Operation, look.looks = true →
      let x := reset.step s k
      let y := look.step s (k ++ x.calls)
      x.calls.Untroubled → x.outcome = ⟨.reset, .ok ()⟩ ∧ (y.calls.Untroubled →
        ∃ id, y.calls = creation id ∧
          History.stored (some text) (k ++ x.calls ++ y.calls) = some (Document.new id).encode ∧
          Document.decode? (Document.new id).encode = some (Document.new id) ∧
          (Document.new id).Sound ∧
          (y.outcome.result.isOk = true ∨
            ∃ name, look = .profile name ∧ name ≠ Document.defaultProfileName ∧
              y.outcome = ⟨look, .error ⟨look, .notFound name⟩⟩)) := by
  intro run k
  obtain ⟨hfails, hkept⟩ :=
    steps_refused (h := []) fair rfl (not_readable_iff.mpr hunreadable) hops
  rw [List.nil_append] at hkept
  refine ⟨hfails, hkept, ?_, ?_⟩
  · intro doc hvalid hfloats x huntroubled
    exact step_importDocument_readable fair hvalid hfloats huntroubled
  · intro look hlook x y hx
    have habsent : History.stored (some text) (k ++ x.calls) = none := (step_reset hx).2 _
    refine ⟨(step_reset hx).1, fun hy => ?_⟩
    obtain ⟨id, hne, hcalls, hresult⟩ := step_look_new fair habsent hlook hy
    have hnew : (Document.new id).SoundWith fun v => v.reread? = some v :=
      Document.soundWith_new hne
    refine ⟨id, hcalls, ?_, Document.decode?_encode_eq_self hnew.values, hnew.toSound, hresult⟩
    rw [History.stored_append, hcalls]
    rfl

/-- The theorem for a text that is not JSON, which survives a look, and the attempt to
replace it by a document without profiles. -/
theorem unreadable_text_is_kept_ordinary :
    let s := ordinary (some "x");
    let ops : List Operation := [.list, .importDocument default];
    let k : History := (steps s ops []).flatMap Step.calls;
    let x := (importDocument (Document.new "i")).step s k;
    let y := reset.step s k;
    Fair (some "x") s ∧ Document.decode? "x" = none ∧ (∀ op ∈ ops, ¬ op.Renews) ∧
      (∀ z ∈ steps s ops [], z.outcome.result.isOk = false) ∧ k.stored (some "x") = some "x" ∧
      (Document.new "i").validate = .ok () ∧ x.calls.Untroubled ∧
      (∃ (new : String) (doc' : Document),
        History.stored (some "x") (k ++ x.calls) = some new ∧
        Document.decode? new = some doc' ∧ doc'.Sound) ∧
      y.calls.Untroubled ∧ y.outcome = ⟨.reset, .ok ()⟩ := by
  intro s ops k x y
  have fair : Fair (some "x") s := fair_ordinary (some "x")
  have hdecode : Document.decode? "x" = none := by decide +kernel
  have hops : ∀ op ∈ ops, ¬ op.Renews := by
    intro op hop
    rcases List.mem_pair.mp hop with rfl | rfl
    · exact id
    · exact nofun
  obtain ⟨hfails, hkept, himport, hreset⟩ := unreadable_text_is_kept fair (.inl hdecode) hops
  have hnew : (Document.new "i").SoundWith fun v => ∀ z, v ≠ .float z :=
    Document.soundWith_new (by decide)
  have hx : x.calls.Untroubled := untroubled_step_ordinary _ k
  have hy : y.calls.Untroubled := untroubled_step_ordinary _ k
  obtain ⟨new, doc', -, hread⟩ := himport (Document.new "i") hnew.validate_eq_ok
    (fun z hz => absurd rfl (Document.valuesAre_iff_holds.mp hnew.values _ hz z)) hx
  exact ⟨fair, hdecode, hops, fun z hz => (hfails z hz).1, hkept, hnew.validate_eq_ok, hx,
    ⟨new, doc', hread⟩, hy, (hreset .list rfl hy).1⟩

end Operation

end SettingProfiles
