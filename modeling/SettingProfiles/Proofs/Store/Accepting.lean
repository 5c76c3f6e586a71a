/-
SettingProfiles.Proofs.Store.Accepting — the store's upgrades are never refused.

An upgrade refuses a document that is not valid, and an operation could pass that refusal
on. None does. A document comes to be upgraded in two ways only, from the storage or by
being imported, and on both it is validated before; repair and upgrades keep it valid,
whatever the old settings are. So the branch is there but is never taken, and this does
not depend on how calls are answered or on which of them go wrong.

  §1 `Spared`   — programs that do not fail with the refusal of an upgrade.
  §2 Upgrading  — of a valid document.
  §3 Operations — `no_upgrade_is_refused`.
-/
import SettingProfiles.Proofs.Store.Importing

namespace SettingProfiles

variable {doc : Document} {h : History} {s : Surroundings Effect Effect.Answer}

/-! ## §1 `Spared` -/

/-- The refusal of a document by an upgrade. -/
def StoreError.isRefusal : StoreError → Bool
  | .upgrade _ _ => true
  | _ => false

/-- However its calls are answered, the program does not fail with the refusal of an
upgrade, and what it returns is of this kind. -/
inductive Program.Spared {α : Type} (ok : α → Prop) :
    Program Effect Effect.Answer (Except StoreError α) → Prop
  | returns {a : α} (ha : ok a) : Spared ok (.done (.ok a))
  | fails {e : StoreError} (he : e.isRefusal = false) : Spared ok (.done (.error e))
  | ask {q : Effect} {next : q.Answer → Program Effect Effect.Answer (Except StoreError α)}
      (hnext : ∀ a, Spared ok (next a)) : Spared ok (.ask q next)

/-- What holds of the tree holds of every run, whoever answers. -/
theorem Program.Spared.ensures {α : Type} {ok : α → Prop}
    {p : Program Effect Effect.Answer (Except StoreError α)} (hp : p.Spared ok) :
    p.Ensures s h fun r _ =>
      match r with
      | .ok a => ok a
      | .error e => e.isRefusal = false := by
  induction hp generalizing h with
  | returns ha => exact ha
  | fails he => exact he
  | ask _ ih => exact ih _

namespace Procedure

variable {α β : Type} {ok : α → Prop} {ok' : β → Prop}

/-- The same of a procedure. -/
def Spared (p : Procedure α) (ok : α → Prop) : Prop := Program.Spared ok p.run

theorem Spared.ensures {p : Procedure α} (hp : p.Spared ok) :
    p.Ensures s h (fun a _ => ok a) fun e _ => e.isRefusal = false := by
  refine Program.Ensures.mono (Program.Spared.ensures hp) fun r h' hr => ?_
  cases r <;> exact hr

theorem Spared.pure {a : α} (ha : ok a) : (pure a : Procedure α).Spared ok := .returns ha

theorem Spared.throw {e : StoreError} (he : e.isRefusal = false) :
    (throw e : Procedure α).Spared ok := .fails he

/-- Only results of the first part are gone on from, so the second may rely on what they
are. -/
theorem Spared.bind {p : Procedure α} {f : α → Procedure β} (hp : p.Spared ok)
    (hf : ∀ a, ok a → (f a).Spared ok') : (p >>= f).Spared ok' := by
  unfold Spared at *
  rw [ExceptT.run_bind]
  generalize p.run = tree at hp
  induction hp with
  | returns ha => exact hf _ ha
  | fails he => exact .fails he
  | ask _ ih => exact .ask ih

theorem Spared.foldlM {f : α → β → Procedure α} (bs : List β) {a : α} (ha : ok a)
    (hf : ∀ a b, ok a → (f a b).Spared ok) : (bs.foldlM f a).Spared ok := by
  induction bs generalizing a with
  | nil => exact .pure ha
  | cons b bs ih =>
    rw [List.foldlM_cons]
    exact (hf a b ha).bind fun a' => ih

/-- A storage call fails with its fault. -/
theorem spared_storage (p : Program Effect Effect.Answer (Except Fault α)) :
    (storage p).Spared fun _ => True := by
  induction p with
  | done r =>
    cases r with
    | ok a => exact .returns trivial
    | error f => cases f <;> exact .fails rfl
  | ask q next ih => exact .ask ih

theorem spared_legacy (key : String) : (legacy key).Spared fun _ => True := by
  refine .ask fun found => ?_
  cases found with
  | ok value => exact .returns trivial
  | error p => exact .fails rfl

theorem spared_freshId (inUse : List String) : (freshId inUse).Spared fun _ => True :=
  .ask fun _ => .returns trivial

theorem spared_publish (event : StoreEvent) : (publish event).Spared fun _ => True :=
  .ask fun _ => .returns trivial

/-- What a document refuses by itself is not the refusal of an upgrade. -/
theorem spared_ofDocument (r : Except DocumentError α) : (ofDocument r).Spared fun _ => True := by
  cases r with
  | ok a => exact .pure trivial
  | error e => cases e <;> exact .throw rfl

end Procedure

/-! ## §2 Upgrading -/

namespace Procedure

theorem spared_persist (doc : Document) : (persist doc).Spared fun _ => True :=
  spared_storage _

theorem spared_readLegacy (keys : List String) : (readLegacy keys).Spared fun _ => True :=
  .foldlM keys trivial fun values key _ => (spared_legacy key).bind fun value _ => by
    cases value <;> exact .pure trivial

/-- A valid document is not refused, and stays valid. -/
theorem spared_applyUpgrade (hvalid : doc.validate = .ok ()) (u : Upgrade) :
    (doc.applyUpgrade u).Spared fun d => d.validate = .ok () := by
  refine (spared_readLegacy u.legacyKeys).bind fun legacy _ => ?_
  rw [Upgrade.apply_eq_ok u legacy hvalid]
  exact .pure ((Upgrade.validate_fillAll doc (u.fills legacy)).trans hvalid)

/-- Repair keeps a valid document valid: it touches neither the profiles that there are nor
their names. -/
theorem spared_normalise (hvalid : doc.validate = .ok ()) :
    (doc.normalise freshId).Spared fun d => d.validate = .ok () := by
  have hids : (doc.assignIds freshId).Spared fun d => d.validate = .ok () :=
    .foldlM _ hvalid fun d name hd => (spared_freshId _).bind fun id _ =>
      .pure ((d.validate_withId name id).trans hd)
  exact hids.bind fun d hd => .pure (d.validate_repairCurrent.trans hd)

/-- Every upgrade is given a valid document: the first by repair, each other by the one
before it. -/
theorem spared_ensureUpgraded (hvalid : doc.validate = .ok ()) :
    doc.ensureUpgraded.Spared fun _ => True := by
  refine (spared_normalise hvalid).bind fun repaired hrepaired => ?_
  have hupgrades : (repaired.pending.foldlM (fun d u => do
      let next ← d.applyUpgrade u
      persist next
      return next) repaired : Procedure Document).Spared fun d => d.validate = .ok () :=
    .foldlM _ hrepaired fun d u hd => (spared_applyUpgrade hd u).bind fun next hnext =>
      (spared_persist next).bind fun _ _ => .pure hnext
  cases doc.isNormal with
  | true =>
    simp only [if_true]
    exact hupgrades.bind fun _ _ => .pure trivial
  | false =>
    simp only [if_false, Bool.false_eq_true]
    exact (spared_persist repaired).bind fun _ _ => hupgrades.bind fun _ _ => .pure trivial

theorem spared_upgradeDetached (hvalid : doc.validate = .ok ()) :
    doc.upgradeDetached.Spared fun _ => True := by
  refine (spared_normalise hvalid).bind fun repaired hrepaired => ?_
  have hupgrades : (repaired.pending.foldlM Document.applyUpgrade repaired).Spared
      fun d => d.validate = .ok () :=
    .foldlM _ hrepaired fun d u hd => spared_applyUpgrade hd u
  exact hupgrades.bind fun final _ => .pure trivial

/-- A stored text is decoded to a valid document or not at all. -/
theorem spared_decode (text : String) : (decode text).Spared fun d => d.validate = .ok () := by
  unfold decode
  cases Document.decode? text with
  | none => exact .throw rfl
  | some doc =>
    dsimp only
    cases hvalid : doc.validate with
    | ok _ => exact .pure hvalid
    | error e => exact .throw rfl

/-- A stored text is validated, and a new document is valid. -/
theorem spared_readStored : readStored.Spared fun d => d.validate = .ok () := by
  refine (spared_storage _).bind fun text _ => ?_
  cases text with
  | some text => exact spared_decode text
  | none =>
    rw [Document.initial_eq]
    refine Spared.bind ?_ fun doc (hdoc : doc.validate = .ok ()) =>
      (spared_persist doc).bind fun _ _ => .pure hdoc
    exact (spared_freshId []).bind fun id _ => .pure rfl

theorem spared_read : read.Spared fun _ => True :=
  spared_readStored.bind fun _ hvalid => (spared_ensureUpgraded hvalid).bind fun _ _ =>
    .pure trivial

/-! ## §3 Operations -/

theorem spared_commit (doc : Document) : (commit doc).Spared fun _ => True :=
  (spared_persist doc).bind fun _ _ => spared_publish _

theorem spared_withRateLimit (doc : Document) (name : String) (settings : SettingMap) :
    (withRateLimit doc name settings).Spared fun _ => True := by
  unfold withRateLimit
  split
  · exact .pure trivial
  · have hlimit : (inheritedRateLimit doc name).Spared fun _ => True := by
      unfold inheritedRateLimit
      cases doc.existingValue? SettingName.rateLimitSeconds (some name) with
      | some value => exact .pure trivial
      | none => exact (spared_readLegacy _).bind fun _ _ => .pure trivial
    exact hlimit.bind fun _ _ => .pure trivial

theorem spared_upsert (doc : Document) (name : String) (settings : SettingMap) :
    (doc.upsert freshId name settings : Procedure _).Spared fun _ => True := by
  unfold Document.upsert
  split
  · exact .pure trivial
  · cases doc.profiles.get? name with
    | none => exact (spared_freshId _).bind fun _ _ => .pure trivial
    | some p =>
      dsimp only [Option.map_some]
      split
      · exact (spared_freshId _).bind fun _ _ => .pure trivial
      · exact .pure trivial

theorem spared_save (name : String) (settings : SettingMap) :
    (Procedure.save name settings).Spared fun _ => True := by
  unfold Procedure.save
  split
  · exact .throw rfl
  · exact spared_read.bind fun doc _ => (spared_withRateLimit doc name settings).bind fun full _ =>
      (spared_upsert doc name full).bind fun r _ => (spared_ofDocument r).bind fun _ _ =>
      (spared_commit _).bind fun _ _ => .pure trivial

theorem spared_activate (doc : Document) (name : String) :
    (activate doc name).Spared fun _ => True :=
  (spared_ofDocument _).bind fun _ _ => (spared_ofDocument _).bind fun _ _ =>
    (spared_commit _).bind fun _ _ => .pure trivial

/-- A document that is imported is validated before it is upgraded. -/
theorem spared_importDocument (doc : Document) :
    (Procedure.importDocument doc).Spared fun _ => True := by
  cases hvalid : doc.validate with
  | ok _ =>
    unfold Procedure.importDocument
    rw [hvalid]
    exact (spared_upgradeDetached hvalid).bind fun r _ =>
      (spared_commit r.document).bind fun _ _ => .pure trivial
  | error e =>
    rw [importDocument_eq_throw hvalid]
    cases e <;> exact .throw rfl

/-- **No operation fails with the refusal of an upgrade.** -/
theorem spared_body (op : Operation) : op.body.Spared fun _ => True := by
  cases op with
  | save name settings => exact spared_save name settings
  | load name =>
    exact spared_read.bind fun doc _ => (spared_activate doc name).bind fun _ _ => .pure trivial
  | loadById id =>
    refine spared_read.bind fun doc _ => ?_
    cases doc.profileById? id with
    | none => exact .throw rfl
    | some found => exact (spared_activate doc found.1).bind fun _ _ => .pure trivial
  | profile name => exact spared_read.bind fun doc _ => spared_ofDocument _
  | delete name =>
    exact spared_read.bind fun doc _ => (spared_ofDocument _).bind fun r _ =>
      (spared_commit r.2).bind fun _ _ => .pure trivial
  | setCurrent name =>
    exact spared_read.bind fun doc _ => (spared_ofDocument _).bind fun d _ => spared_commit d
  | bindMode mode id => exact spared_read.bind fun doc _ => spared_commit _
  | exportDocument => exact spared_read
  | importDocument doc => exact spared_importDocument doc
  | reset => exact (spared_storage _).bind fun _ _ => spared_publish _
  | prepare | list | current | contains | modeBinding | snapshot =>
    exact spared_read.bind fun _ _ => .pure trivial

end Procedure

namespace Operation

/-- **No upgrade is ever refused.** In every run of operations, documents of any kind being
imported, and however the calls are answered: whatever was stored before, whatever the old
settings are, and whichever calls go wrong. If an operation fails, the cause is not that
an upgrade refused the document. -/
theorem no_upgrade_is_refused (s : Surroundings Effect Effect.Answer) (h : History)
    (ops : List Operation) :
    (inTurn ops).Ensures s h fun outcomes _ =>
      ∀ o ∈ outcomes, ∀ e, o.result = .error e → ∀ u d, e.cause ≠ .upgrade u d := by
  induction ops generalizing h with
  | nil =>
    show (Program.done [] : Program Effect Effect.Answer (List Outcome)).Ensures s h _
    rw [Program.ensures_done]
    simp
  | cons op ops ih =>
    rw [ensures_inTurn_cons]
    refine (ensures_outcome (Procedure.spared_body op).ensures).mono fun o h' ho => ?_
    refine (ih h').mono fun outcomes _ hrest => List.forall_mem_cons.mpr ⟨?_, hrest⟩
    obtain ⟨r, rfl, -⟩ | ⟨cause, rfl, hcause⟩ := ho
    · rintro e ⟨⟩
    · rintro e ⟨⟩ u d rfl
      cases hcause

end Operation

end SettingProfiles
