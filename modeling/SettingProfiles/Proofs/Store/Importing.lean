/-
SettingProfiles.Proofs.Store.Importing — importing needs nothing but a valid document.

An imported document takes the place of whatever is stored, so nothing is asked of the
storage but to keep it: no text is fetched first, and one is handed over. If no call
goes wrong, importing succeeds exactly if the document is valid; a document that is not
valid is refused before anything is asked. And a document that was exported lacks
nothing, so importing it stores the text of that very document.

  §1 Histories  — in which no call goes wrong, and that end with a new document.
  §2 `Delivers` — programs that return unless a call goes wrong.
  §3 Upgrading  — a valid document can be brought up to date.
  §4 Importing  — what it asks, and what it comes to.
  §5 Exporting  — `import_restores_export`.
-/
import SettingProfiles.Proofs.Document.OwnText
import SettingProfiles.Proofs.Store.Frame

namespace SettingProfiles

variable {initial : Option String} {h h' : History} {doc : Document}
  {s : Surroundings Effect Effect.Answer}

/-! ## §1 Histories -/

/-- What went wrong with a call, to the storage or to the old settings. -/
def Effect.trouble? : (q : Effect) → q.Answer → Option Fault
  | .get, .error f | .set _, .error f | .delete, .error f => some f
  | .legacy _, .error p => some (.panic p)
  | _, _ => none

/-- No call went wrong. -/
def History.Untroubled (h : History) : Prop := ∀ x ∈ h, x.question.trouble? x.answer = none

/-- The history goes on with ids that are drawn and looks at old settings, and ends with
the document being stored and then announced. -/
def History.Replaces (h h' : History) (doc : Document) : Prop :=
  ∃ looked : History, (∀ x ∈ looked, x.question.isSource = true) ∧
    h' = h ++ looked ++ [⟨.set doc.encode, .ok ()⟩, ⟨.publish (.changed (.of doc)), ()⟩]

theorem History.Replaces.stored_eq (hr : Replaces h h' doc) (initial : Option String) :
    h'.stored initial = some doc.encode := by
  obtain ⟨looked, -, rfl⟩ := hr
  rw [stored_append]
  rfl

open History (Replaces)

/-- In surroundings in which no call goes wrong, none of a program's does. -/
theorem Program.untroubled {α : Type} (hs : ∀ (k : History) (q : Effect), q.trouble? (s k q) = none)
    (p : Program Effect Effect.Answer α) (hh : h.Untroubled) :
    History.Untroubled (p.converse s h).2 := by
  induction p generalizing h with
  | done a => exact hh
  | ask q next ih =>
    rw [converse_ask]
    exact ih _ (List.forall_mem_append.mpr ⟨hh, List.forall_mem_singleton.mpr (hs h q)⟩)

/-- In ordinary surroundings no call goes wrong. -/
theorem Program.untroubled_ordinary {α : Type} (p : Program Effect Effect.Answer α)
    (hh : h.Untroubled) (k : History) :
    History.Untroubled (p.converse ((ordinary initial).after k) h).2 :=
  p.untroubled (fun _ q => by cases q <;> rfl) hh

/-! ## §2 `Delivers` -/

/-- Unless a call goes wrong, the program returns, with a value of this kind. -/
inductive Program.Delivers {α : Type} (ok : α → Prop) :
    Program Effect Effect.Answer (Except StoreError α) → Prop
  | done {a : α} (ha : ok a) : Delivers ok (.done (.ok a))
  | ask {q : Effect} {next : q.Answer → Program Effect Effect.Answer (Except StoreError α)}
      (hnext : ∀ a, q.trouble? a = none → Delivers ok (next a)) : Delivers ok (.ask q next)

theorem Program.Delivers.converse {α : Type} {ok : α → Prop}
    {p : Program Effect Effect.Answer (Except StoreError α)} (hp : p.Delivers ok)
    (huntroubled : History.Untroubled (p.converse s h).2) :
    ∃ a, (p.converse s h).1 = .ok a ∧ ok a := by
  induction hp generalizing h with
  | @done a ha => exact ⟨a, rfl, ha⟩
  | @ask q next _ ih =>
    rw [converse_ask] at huntroubled ⊢
    obtain ⟨more, hmore⟩ := (next (s h q)).converse_extends s (h ++ [⟨q, s h q⟩])
    have hasked : (⟨q, s h q⟩ : Exchange Effect Effect.Answer) ∈
        ((next (s h q)).converse s (h ++ [⟨q, s h q⟩])).2 := by
      rw [hmore]
      simp
    exact ih (s h q) (huntroubled _ hasked) huntroubled

namespace Procedure

variable {α β : Type} {ok : α → Prop} {ok' : β → Prop}

/-- The same of a procedure. -/
def Delivers (p : Procedure α) (ok : α → Prop) : Prop := Program.Delivers ok p.run

theorem Delivers.pure {a : α} (ha : ok a) : (pure a : Procedure α).Delivers ok := .done ha

/-- It fails only if a call goes wrong. -/
theorem Delivers.ensures {p : Procedure α} (hp : p.Delivers ok) :
    p.Ensures s h (fun a h' => h'.Untroubled → ok a) fun _ h' => ¬ h'.Untroubled := by
  have hdone := Program.Delivers.converse (s := s) (h := h) hp
  unfold Ensures Program.Ensures
  generalize p.run.converse s h = r at hdone ⊢
  obtain ⟨r, h'⟩ := r
  cases r with
  | ok a =>
    intro huntroubled
    obtain ⟨_, ⟨⟩, ha⟩ := hdone huntroubled
    exact ha
  | error e =>
    intro huntroubled
    obtain ⟨_, ⟨⟩, -⟩ := hdone huntroubled

theorem Delivers.bind {p : Procedure α} {f : α → Procedure β} (hp : p.Delivers ok)
    (hf : ∀ a, ok a → (f a).Delivers ok') : (p >>= f).Delivers ok' := by
  unfold Delivers at *
  rw [ExceptT.run_bind]
  generalize p.run = tree at hp
  induction hp with
  | done ha => exact hf _ ha
  | ask _ ih => exact .ask ih

theorem Delivers.foldlM {f : α → β → Procedure α} (bs : List β) {a : α} (ha : ok a)
    (hf : ∀ a b, ok a → (f a b).Delivers ok) : (bs.foldlM f a).Delivers ok := by
  induction bs generalizing a with
  | nil => exact .pure ha
  | cons b bs ih =>
    rw [List.foldlM_cons]
    exact (hf a b ha).bind fun a' => ih

theorem delivers_persist (doc : Document) : (persist doc).Delivers fun _ => True := by
  refine .ask fun a ha => ?_
  cases a with
  | ok _ => exact .done trivial
  | error f => cases ha

theorem delivers_legacy (key : String) : (legacy key).Delivers fun _ => True := by
  refine .ask fun a ha => ?_
  cases a with
  | ok value => exact .done trivial
  | error p => cases ha

theorem delivers_freshId (inUse : List String) : (freshId inUse).Delivers fun _ => True :=
  .ask fun _ _ => .done trivial

theorem delivers_commit (doc : Document) : (commit doc).Delivers fun _ => True :=
  (delivers_persist doc).bind fun _ _ => .ask fun _ _ => .done trivial

end Procedure

/-! ## §3 Upgrading -/

namespace Document

/-- Only the names of the profiles count. -/
theorem validate_eq_of_contains {doc' : Document}
    (hcontains : ∀ name, doc'.profiles.contains name = doc.profiles.contains name) :
    doc'.validate = doc.validate := by
  have hempty : doc'.profiles.isEmpty = doc.profiles.isEmpty := by
    rw [Bool.eq_iff_iff, ← not_iff_not, Bool.not_eq_true, Bool.not_eq_true,
      SortedMap.isEmpty_eq_false_iff, SortedMap.isEmpty_eq_false_iff]
    simp only [hcontains]
  unfold validate
  rw [hempty, hcontains]

theorem validate_fillMissing (doc : Document) (key : String) (value : Setting) :
    (doc.fillMissing key value).validate = doc.validate := by
  refine validate_eq_of_contains fun name => ?_
  simp [SortedMap.contains, get?_fillMissing]

theorem validate_withId (doc : Document) (name id : String) :
    (doc.withId name id).validate = doc.validate :=
  validate_eq_of_contains fun k => by simp

theorem validate_repairCurrent (doc : Document) : doc.repairCurrent.validate = doc.validate :=
  validate_eq_of_contains fun name => by simp

end Document

theorem Upgrade.validate_fillAll (doc : Document) (fills : List (String × Setting)) :
    (fillAll doc fills).2.validate = doc.validate :=
  fillAll_keeps (P := fun d => d.validate = doc.validate)
    (fun d key value hd => (d.validate_fillMissing key value).trans hd) rfl fills

namespace Procedure

theorem delivers_readLegacy (keys : List String) : (readLegacy keys).Delivers fun _ => True :=
  .foldlM keys trivial fun values key _ => (delivers_legacy key).bind fun value _ => by
    cases value <;> exact .pure trivial

/-- Upgrading only adds settings. -/
theorem delivers_applyUpgrade (hvalid : doc.validate = .ok ()) (u : Upgrade) :
    (doc.applyUpgrade u).Delivers fun d => d.validate = .ok () := by
  refine (delivers_readLegacy u.legacyKeys).bind fun legacy _ => ?_
  rw [Upgrade.apply_eq_ok u legacy hvalid]
  exact .pure ((Upgrade.validate_fillAll doc (u.fills legacy)).trans hvalid)

theorem delivers_normalise (hvalid : doc.validate = .ok ()) :
    (doc.normalise freshId).Delivers fun d => d.validate = .ok () := by
  have hids : (doc.assignIds freshId).Delivers fun d => d.validate = .ok () :=
    .foldlM _ hvalid fun d name hd => (delivers_freshId _).bind fun id _ =>
      .pure ((d.validate_withId name id).trans hd)
  exact hids.bind fun d hd => .pure (d.validate_repairCurrent.trans hd)

/-- Unless a call goes wrong, a valid document can be brought up to date, and stays
valid. -/
theorem delivers_upgradeDetached (hvalid : doc.validate = .ok ()) :
    doc.upgradeDetached.Delivers fun r => r.document.validate = .ok () := by
  refine (delivers_normalise hvalid).bind fun repaired hrepaired => ?_
  have hupgrades : (repaired.pending.foldlM Document.applyUpgrade repaired).Delivers
      fun d => d.validate = .ok () :=
    .foldlM _ hrepaired fun d u hd => delivers_applyUpgrade hd u
  exact hupgrades.bind fun final hfinal => .pure hfinal

/-- A document that lacks nothing is brought up to date without a call. -/
theorem upgradeDetached_eq_pure (hnormal : doc.isNormal = true) (hupToDate : doc.UpToDate) :
    doc.upgradeDetached = (pure ⟨doc, [], 0⟩ : Procedure Upgraded) := by
  unfold Document.upgradeDetached
  rw [Document.normalise_eq_pure hnormal]
  simp [Document.upToDate_iff_pending_eq_nil.mp hupToDate]

/-! ## §4 Importing -/

theorem delivers_importDocument (hvalid : doc.validate = .ok ()) :
    (Operation.importDocument doc).body.Delivers fun _ => True := by
  show (Procedure.importDocument doc).Delivers fun _ => True
  unfold Procedure.importDocument
  rw [hvalid]
  exact (delivers_upgradeDetached hvalid).bind fun r _ =>
    (delivers_commit r.document).bind fun _ _ => .pure trivial

/-- A document that is not valid is refused before anything is asked. -/
theorem importDocument_eq_throw {e : DocumentError} (hinvalid : doc.validate = .error e) :
    Procedure.importDocument doc = throw (.ofDocument e) := by
  unfold Procedure.importDocument
  rw [hinvalid]
  rfl

theorem importDocument_eq_commit (hsound : doc.Sound) (hupToDate : doc.UpToDate) :
    Procedure.importDocument doc = (do commit doc; return .of doc) := by
  unfold Procedure.importDocument
  rw [hsound.validate_eq_ok, upgradeDetached_eq_pure hsound.isNormal hupToDate]
  rfl

/-- Importing stores one text and fetches none. What is stored has what the document has
that was brought up to date. -/
theorem ensures_importDocument_replaces {P : Document → Prop}
    (hupgrade : doc.upgradeDetached.Ensures s h (fun r _ => P r.document) fun _ _ => True) :
    (Procedure.importDocument doc).Ensures s h
      (fun r h' => ∃ final, P final ∧ r = .of final ∧ Replaces h h' final) fun _ _ => True := by
  unfold Procedure.importDocument
  rw [ensures_bind, ensures_ofDocument]
  cases doc.validate with
  | error e => trivial
  | ok _ =>
    dsimp only
    rw [ensures_bind]
    have hsources := Program.FailStop.extends_of_kind (s := s) (failStop_upgradeDetached doc) h
    refine (hupgrade.and (ensures_converse _)).mono ?_ fun _ _ _ => trivial
    rintro r h₁ ⟨hr, hrun⟩
    rw [hrun] at hsources
    obtain ⟨looked, rfl, hlooked⟩ := hsources
    unfold commit
    rw [ensures_bind, ensures_bind, ensures_persist]
    cases s (h ++ looked) (.set r.document.encode) with
    | error f => trivial
    | ok _ =>
      rw [ensures_publish]
      exact ⟨r.document, hr, rfl, looked, hlooked, by simp⟩

end Procedure

namespace Operation

open Procedure

/-- An operation none of whose calls went wrong has returned, if a call that goes wrong
is all that it can fail with. -/
theorem step_of_delivers {op : Operation} {P : op.Result → Prop} {ok : op.Result → History → Prop}
    {err : StoreError → History → Prop} (hop : op.body.Delivers P)
    (hbody : op.body.Ensures (s.after h) [] ok err)
    (huntroubled : (op.step s h).calls.Untroubled) :
    ∃ r, (op.step s h).outcome = ⟨op, .ok r⟩ ∧ ok r (op.step s h).calls := by
  rcases step_of_body (hbody.and hop.ensures) with ⟨r, houtcome, hr, -⟩ | ⟨e, -, -, htrouble⟩
  · exact ⟨r, houtcome, hr⟩
  · exact absurd huntroubled htrouble

theorem untroubled_step_ordinary (op : Operation) (h : History) :
    (op.step (ordinary initial) h).calls.Untroubled :=
  Program.untroubled_ordinary op.outcome (h := []) (by simp [History.Untroubled]) h

theorem step_importDocument_of_invalid {e : DocumentError} (hinvalid : doc.validate = .error e) :
    (importDocument doc).step s h =
      ⟨⟨importDocument doc, .error ⟨importDocument doc, .ofDocument e⟩⟩, []⟩ := by
  have hbody : (importDocument doc).body.run.converse (s.after h) []
      = (.error (.ofDocument e), []) := by
    show (Procedure.importDocument doc).run.converse (s.after h) [] = _
    rw [importDocument_eq_throw hinvalid]
    rfl
  exact step_of_converse hbody

/-! ## §5 Exporting -/

/-- What is exported lacks nothing. -/
theorem sound_of_export (fair : Fair initial s)
    (hexport : (exportDocument.step s h).outcome = ⟨exportDocument, .ok doc⟩) :
    doc.Sound ∧ doc.UpToDate := by
  have hread : exportDocument.body.Ensures (s.after h) []
      (fun d _ => d.Sound ∧ d.UpToDate) fun _ _ => True :=
    (ensures_read (fair.after h) Setting.lasting_true (.nil _)).mono
      (fun d _ hd => ⟨hd.sound.toSound, hd.upToDate⟩) fun _ _ _ => trivial
  rcases step_of_body hread with ⟨d, houtcome, hd⟩ | ⟨e, houtcome, -⟩
  · rw [houtcome] at hexport
    cases hexport
    exact hd
  · rw [houtcome] at hexport
    cases hexport

/-- A stored document that lacks nothing is exported as it is. -/
theorem export_of_sound {text : String} (hget : s h .get = .ok (some text))
    (hdecode : Document.decode? text = some doc) (hsound : doc.Sound) (hupToDate : doc.UpToDate) :
    (exportDocument.step s h).outcome = ⟨exportDocument, .ok doc⟩ := by
  have hread : exportDocument.body.Ensures (s.after h) [] (fun d _ => d = doc)
      fun _ _ => False := by
    show read.Ensures (s.after h) [] _ _
    rw [ensures_read_present (h := []) (by simpa [Surroundings.after] using hget) hdecode hsound
      hupToDate]
  rcases step_of_body hread with ⟨d, houtcome, rfl⟩ | ⟨e, -, hf⟩
  · exact houtcome
  · exact hf.elim

/-- A document that lacks nothing is stored as it is. -/
theorem step_importDocument_of_sound (hsound : doc.Sound) (hupToDate : doc.UpToDate)
    (huntroubled : ((importDocument doc).step s h).calls.Untroubled) :
    (importDocument doc).step s h = ⟨⟨importDocument doc, .ok (.of doc)⟩,
      [⟨.set doc.encode, .ok ()⟩, ⟨.publish (.changed (.of doc)), ()⟩]⟩ := by
  have hbody : (importDocument doc).body.Ensures (s.after h) []
      (fun r h' => r = .of doc ∧
        h' = [⟨.set doc.encode, .ok ()⟩, ⟨.publish (.changed (.of doc)), ()⟩])
      fun _ _ => True := by
    show (Procedure.importDocument doc).Ensures (s.after h) [] _ _
    rw [importDocument_eq_commit hsound hupToDate, ensures_bind]
    unfold commit
    rw [ensures_bind, ensures_persist]
    cases s.after h [] (.set doc.encode) with
    | ok _ => exact ⟨rfl, rfl⟩
    | error f => trivial
  obtain ⟨r, houtcome, rfl, hcalls⟩ :=
    step_of_delivers (delivers_importDocument hsound.validate_eq_ok) hbody huntroubled
  rw [← houtcome, ← hcalls]

/-- Any document that is valid can be imported, and no other. -/
theorem step_importDocument (doc : Document)
    (huntroubled : ((importDocument doc).step s h).calls.Untroubled) :
    (((importDocument doc).step s h).outcome.result.isOk = true ↔ doc.validate = .ok ()) ∧
      (doc.validate = .ok () → ∃ final : Document,
        ((importDocument doc).step s h).outcome = ⟨importDocument doc, .ok (.of final)⟩ ∧
        Replaces [] ((importDocument doc).step s h).calls final) := by
  cases hvalid : doc.validate with
  | error e =>
    rw [step_importDocument_of_invalid hvalid]
    exact ⟨⟨fun h => (by cases h), fun h => (by cases h)⟩, fun h => (by cases h)⟩
  | ok _ =>
    have hbody : (importDocument doc).body.Ensures (s.after h) []
        (fun r h' => ∃ final, True ∧ r = .of final ∧ Replaces [] h' final) fun _ _ => True :=
      ensures_importDocument_replaces (P := fun _ => True) (ensures_true _)
    obtain ⟨r, houtcome, final, -, rfl, hcalls⟩ :=
      step_of_delivers (delivers_importDocument hvalid) hbody huntroubled
    rw [houtcome]
    exact ⟨⟨fun _ => rfl, fun _ => rfl⟩, fun _ => ⟨final, rfl, hcalls⟩⟩

/-- **Importing an exported document restores it, and a document can be imported exactly
if it is valid.** Whatever `doc` an export returned, wherever it is imported and
whatever is stored there: if no call goes wrong, the only calls are to store the text of
`doc` and to announce it, and that text is the stored one afterwards. Any document
whatever can be imported, if no call goes wrong, exactly if it is valid; one text is
stored then, after nothing but ids being drawn and old settings being looked at. A
document that is not valid is refused without a call. -/
theorem import_restores_export (fair : Fair initial s) :
    (∀ (h : History) (doc : Document),
      (exportDocument.step s h).outcome = ⟨exportDocument, .ok doc⟩ →
      ∀ (t : Surroundings Effect Effect.Answer) (k : History),
        ((importDocument doc).step t k).calls.Untroubled →
        (importDocument doc).step t k = ⟨⟨importDocument doc, .ok (.of doc)⟩,
          [⟨.set doc.encode, .ok ()⟩, ⟨.publish (.changed (.of doc)), ()⟩]⟩ ∧
        ∀ held, History.stored held (k ++ ((importDocument doc).step t k).calls)
          = some doc.encode) ∧
    ∀ (doc : Document) (t : Surroundings Effect Effect.Answer) (k : History),
      (((importDocument doc).step t k).calls.Untroubled →
        (((importDocument doc).step t k).outcome.result.isOk = true ↔ doc.validate = .ok ()) ∧
        (doc.validate = .ok () → ∃ final : Document,
          ((importDocument doc).step t k).outcome = ⟨importDocument doc, .ok (.of final)⟩ ∧
          Replaces [] ((importDocument doc).step t k).calls final)) ∧
      ∀ e, doc.validate = .error e →
        (importDocument doc).step t k =
          ⟨⟨importDocument doc, .error ⟨importDocument doc, .ofDocument e⟩⟩, []⟩ := by
  refine ⟨fun h doc hexport t k huntroubled => ?_, fun doc t k => ⟨?_, fun e hinvalid => ?_⟩⟩
  · obtain ⟨hsound, hupToDate⟩ := sound_of_export fair hexport
    have hstep := step_importDocument_of_sound hsound hupToDate huntroubled
    refine ⟨hstep, fun held => ?_⟩
    rw [hstep, History.stored_append]
    rfl
  · exact step_importDocument doc
  · exact step_importDocument_of_invalid hinvalid

/-- The theorem for a document with a flag of an upgrade that is unknown here, imported
where the stored text is not that of a document. -/
theorem import_restores_export_ordinary :
    let doc := (Document.new "i").markApplied "beta";
    let x := (importDocument doc).step (ordinary (some "x")) [];
    Fair (some doc.encode) (ordinary (some doc.encode)) ∧
      (exportDocument.step (ordinary (some doc.encode)) []).outcome = ⟨exportDocument, .ok doc⟩ ∧
      x.calls.Untroubled ∧ x.outcome = ⟨importDocument doc, .ok (.of doc)⟩ ∧
      History.stored (some "x") x.calls = some doc.encode := by
  intro doc x
  have fair := fair_ordinary (some doc.encode)
  have hnew : (Document.new "i").SoundWith fun v => v.reread? = some v :=
    Document.soundWith_new (by decide)
  have hdecode : Document.decode? doc.encode = some doc :=
    Document.decode?_encode_eq_self hnew.values
  have hupToDate : doc.UpToDate := fun u _ => by cases u <;> decide +kernel
  have hexport : (exportDocument.step (ordinary (some doc.encode)) []).outcome
      = ⟨exportDocument, .ok doc⟩ :=
    export_of_sound rfl hdecode (hnew.toSound.markApplied "beta") hupToDate
  have huntroubled : x.calls.Untroubled := untroubled_step_ordinary (importDocument doc) []
  obtain ⟨hx, hstored⟩ :=
    (import_restores_export fair).1 [] doc hexport (ordinary (some "x")) [] huntroubled
  refine ⟨fair, hexport, huntroubled, congrArg Step.outcome hx, ?_⟩
  rw [← hstored (some "x"), List.nil_append]

end Operation

end SettingProfiles
