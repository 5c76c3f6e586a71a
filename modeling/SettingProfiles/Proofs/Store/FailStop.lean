/-
SettingProfiles.Proofs.Store.FailStop — the storage call that goes wrong is the
last one.

However many calls an operation makes before it stores its own change, the first
storage call that goes wrong ends it: nothing is asked any more, and what went
wrong is what the operation fails with. The property is one of programs as trees
(`FailStop`), so it does not depend on who answers. It also says which kind of
calls a program makes: only looks, or nothing that is announced.

  §1 Faults      — the answers of a storage that goes wrong.
  §2 `FailStop`  — the property, and how programs with it are put together.
  §3 The parts   — reading, bringing up to date, committing.
  §4 Operations  — `failStop_body`.
  §5 Failing runs — a run that goes wrong against one that does not.
-/
import SettingProfiles.Proofs.Store.Runs

namespace SettingProfiles

/-! ## §1 Faults -/

namespace Effect

/-- What went wrong with a storage call. -/
def fault? : (q : Effect) → q.Answer → Option Fault
  | .get, .error f | .set _, .error f | .delete, .error f => some f
  | _, _ => none

/-- The answer of a storage that goes wrong; other calls are answered as before. -/
def faulty (f : Fault) : (q : Effect) → q.Answer → q.Answer
  | .get, _ | .set _, _ | .delete, _ => .error f
  | .legacy _, a | .freshId _, a | .publish _, a => a

/-- Only storage calls are answered otherwise. -/
theorem faulty_eq_self {q : Effect} (h : q.isStorage = false) (f : Fault) (a : q.Answer) :
    q.faulty f a = a := by
  cases q <;> first | rfl | cases h

/-- A call that announces nothing. -/
def isSilent : Effect → Bool
  | .publish _ => false
  | _ => true

/-- Any call. -/
def isAny (_ : Effect) : Bool := true

/-- Drawing an id or looking an old setting up leaves the storage alone. -/
theorem isOutside_of_isSource {q : Effect} (h : q.isSource = true) : q.isOutside = true := by
  cases q <;> first | rfl | cases h

theorem isLook_of_isSource {q : Effect} (h : q.isSource = true) : q.isLook = true := by
  cases q <;> first | rfl | cases h

theorem isSilent_of_isLook {q : Effect} (h : q.isLook = true) : q.isSilent = true := by
  cases q <;> first | rfl | cases h

/-- The answer of a storage that goes wrong is read as the fault that it is. -/
theorem fault?_faulty {q : Effect} (h : q.isStorage = true) (f : Fault) (a : q.Answer) :
    q.fault? (q.faulty f a) = some f := by
  cases q <;> first | rfl | cases h

end Effect

namespace History

/-- No storage call went wrong. -/
def FaultFree (h : History) : Prop := ∀ x ∈ h, x.question.fault? x.answer = none

end History

/-- The surroundings, but that the storage call with this number goes wrong. -/
def Surroundings.failing (s : Surroundings Effect Effect.Answer) (n : Nat) (f : Fault) :
    Surroundings Effect Effect.Answer :=
  fun (h : History) q => if h.storageCalls.length = n then q.faulty f (s h q) else s h q

/-! ## §2 `FailStop` -/

/-- The program makes calls of one kind only, and a storage call that goes wrong ends
it: it fails with the fault. -/
inductive Program.FailStop {α : Type} (kind : Effect → Bool) :
    Program Effect Effect.Answer (Except StoreError α) → Prop
  | done (r : Except StoreError α) : FailStop kind (.done r)
  | ask {q : Effect} {next : q.Answer → Program Effect Effect.Answer (Except StoreError α)}
      (hkind : kind q = true)
      (hfault : ∀ a f, q.fault? a = some f → next a = .done (.error (.ofFault f)))
      (hnext : ∀ a, FailStop kind (next a)) : FailStop kind (.ask q next)

namespace Procedure

variable {α β : Type} {kind kind' : Effect → Bool}

/-- The same of a procedure. -/
def FailStop (kind : Effect → Bool) (p : Procedure α) : Prop := Program.FailStop kind p.run

theorem FailStop.pure (a : α) : (pure a : Procedure α).FailStop kind := .done _

theorem FailStop.throw (e : StoreError) : (throw e : Procedure α).FailStop kind := .done _

/-- A program that makes calls of one kind makes calls of every wider kind. -/
theorem FailStop.mono {p : Procedure α} (hp : p.FailStop kind)
    (hkind : ∀ q, kind q = true → kind' q = true) : p.FailStop kind' := by
  unfold FailStop at *
  generalize p.run = tree at *
  induction hp with
  | done r => exact .done r
  | ask hq hfault _ ih => exact .ask (hkind _ hq) hfault ih

/-- A fault in the first part leaves the second out, so two programs that end with the first
fault still do so one after the other. -/
theorem FailStop.bind {p : Procedure α} {f : α → Procedure β} (hp : p.FailStop kind)
    (hf : ∀ a, (f a).FailStop kind) : (p >>= f).FailStop kind := by
  unfold FailStop at *
  rw [ExceptT.run_bind]
  generalize p.run = tree at hp
  induction hp with
  | done r =>
    cases r with
    | ok a => exact hf a
    | error e => exact .done _
  | ask hq hfault _ ih =>
    refine .ask hq (fun a f hfa => ?_) ih
    rw [hfault a f hfa]
    rfl

/-- The same of a loop, by induction on what it goes through. -/
theorem FailStop.foldlM {f : α → β → Procedure α} (bs : List β) (a : α)
    (hf : ∀ a b, (f a b).FailStop kind) : (bs.foldlM f a).FailStop kind := by
  induction bs generalizing a with
  | nil => exact .pure a
  | cons b bs ih =>
    rw [List.foldlM_cons]
    exact .bind (hf a b) fun a' => ih a'

theorem FailStop.outside {p : Procedure α} (hp : p.FailStop Effect.isSource) :
    p.FailStop Effect.isOutside := hp.mono fun _ => Effect.isOutside_of_isSource

theorem FailStop.look {p : Procedure α} (hp : p.FailStop Effect.isSource) :
    p.FailStop Effect.isLook := hp.mono fun _ => Effect.isLook_of_isSource

theorem FailStop.silent {p : Procedure α} (hp : p.FailStop Effect.isLook) :
    p.FailStop Effect.isSilent := hp.mono fun _ => Effect.isSilent_of_isLook

theorem FailStop.any {p : Procedure α} (hp : p.FailStop kind) : p.FailStop Effect.isAny :=
  hp.mono fun _ _ => rfl

/-- A look at the stored text is over when it goes wrong. -/
theorem failStop_get : get.FailStop Effect.isLook := by
  refine .ask rfl (fun a f hfa => ?_) fun a => ?_
  · cases a <;> cases hfa
    rfl
  · cases a <;> exact .done _

theorem failStop_set (text : String) : (set text).FailStop Effect.isSilent := by
  refine .ask rfl (fun a f hfa => ?_) fun a => ?_
  · cases a <;> cases hfa
    rfl
  · cases a <;> exact .done _

theorem failStop_delete : delete.FailStop Effect.isSilent := by
  refine .ask rfl (fun a f hfa => ?_) fun a => ?_
  · cases a <;> cases hfa
    rfl
  · cases a <;> exact .done _

/-- Looking an old setting up can fail, but never by a fault of the storage. -/
theorem failStop_legacy (key : String) : (legacy key).FailStop Effect.isSource := by
  refine .ask rfl (fun a f hfa => ?_) fun a => ?_
  · cases hfa
  · cases a <;> exact .done _

theorem failStop_freshId (inUse : List String) : (freshId inUse).FailStop Effect.isSource :=
  .ask rfl (fun _ _ hfa => by cases hfa) fun _ => .done _

theorem failStop_publish (event : StoreEvent) : (publish event).FailStop Effect.isOutside :=
  .ask rfl (fun _ _ hfa => by cases hfa) fun _ => .done _

/-- What a document refuses takes no call. -/
theorem failStop_ofDocument (r : Except DocumentError α) : (ofDocument r).FailStop kind := by
  cases r <;> exact .done _

/-! ## §3 The parts -/

/-- Looking old settings up takes no storage call, however many they are. -/
theorem failStop_readLegacy (keys : List String) : (readLegacy keys).FailStop Effect.isSource := by
  refine .foldlM keys _ fun values key => .bind (failStop_legacy key) fun value => ?_
  cases value <;> exact .pure _

theorem failStop_applyUpgrade (doc : Document) (u : Upgrade) :
    (doc.applyUpgrade u).FailStop Effect.isSource := by
  refine .bind (failStop_readLegacy u.legacyKeys) fun legacy => ?_
  cases u.apply legacy doc with
  | ok filled => exact .pure _
  | error e => exact .throw _

theorem failStop_normalise (doc : Document) : (doc.normalise freshId).FailStop Effect.isSource :=
  .bind (.foldlM _ _ fun _ _ => .bind (failStop_freshId _) fun _ => .pure _) fun _ => .pure _

theorem failStop_persist (doc : Document) : (persist doc).FailStop Effect.isSilent :=
  failStop_set doc.encode

/-- Every write on the way up to date may go wrong, and then the later upgrades are not
looked at. -/
theorem failStop_ensureUpgraded (doc : Document) : doc.ensureUpgraded.FailStop Effect.isSilent := by
  refine .bind (failStop_normalise doc).look.silent fun repaired => ?_
  have hupgrades : (repaired.pending.foldlM (fun d u => do
      let next ← d.applyUpgrade u
      persist next
      return next) repaired : Procedure Document).FailStop Effect.isSilent :=
    .foldlM _ _ fun d u => .bind (failStop_applyUpgrade d u).look.silent fun next =>
      .bind (failStop_persist next) fun _ => .pure _
  by_cases hnormal : doc.isNormal = true
  · simp only [hnormal, if_true]
    exact .bind hupgrades fun _ => .pure _
  · simp only [hnormal, if_false, Bool.false_eq_true]
    exact .bind (failStop_persist repaired) fun _ => .bind hupgrades fun _ => .pure _

/-- Upgrading without storing takes no storage call at all. -/
theorem failStop_upgradeDetached (doc : Document) :
    doc.upgradeDetached.FailStop Effect.isSource :=
  .bind (failStop_normalise doc) fun _ =>
    .bind (.foldlM _ _ failStop_applyUpgrade) fun _ => .pure _

theorem failStop_decode (text : String) : (decode text).FailStop kind := by
  unfold decode
  cases Document.decode? text with
  | none => exact .throw _
  | some doc =>
    dsimp only
    cases doc.validate with
    | ok _ => exact .pure _
    | error e => exact .throw _

/-- A new document is stored before it is used, so the first write may already go wrong
here. -/
theorem failStop_readStored : readStored.FailStop Effect.isSilent := by
  refine .bind failStop_get.silent fun text => ?_
  cases text with
  | some text => exact failStop_decode text
  | none =>
    rw [Document.initial_eq]
    exact .bind (.bind (failStop_freshId []).look.silent fun _ => .pure _) fun doc =>
      .bind (failStop_persist doc) fun _ => .pure _

/-- Reading may write, since repair and upgrades do, but it announces nothing. -/
theorem failStop_read : read.FailStop Effect.isSilent :=
  .bind failStop_readStored fun doc => .bind (failStop_ensureUpgraded doc) fun _ => .pure _

/-- Committing writes before it announces, so a write that goes wrong is not announced. -/
theorem failStop_commit (doc : Document) : (commit doc).FailStop Effect.isAny :=
  .bind (failStop_persist doc).any fun _ => (failStop_publish _).any

/-- A missing limit is looked for in the document and in the old settings only. -/
theorem failStop_withRateLimit (doc : Document) (name : String) (settings : SettingMap) :
    (withRateLimit doc name settings).FailStop Effect.isSource := by
  unfold withRateLimit
  split
  · exact .pure _
  · refine .bind ?_ fun _ => .pure _
    unfold inheritedRateLimit
    cases doc.existingValue? SettingName.rateLimitSeconds (some name) with
    | some value => exact .pure _
    | none => exact .bind (failStop_readLegacy _) fun _ => .pure _

theorem failStop_upsert (doc : Document) (name : String) (settings : SettingMap) :
    (doc.upsert freshId name settings : Procedure _).FailStop Effect.isSource := by
  unfold Document.upsert
  split
  · exact .pure _
  · cases doc.profiles.get? name with
    | none => exact .bind (failStop_freshId _) fun _ => .pure _
    | some p =>
      dsimp only [Option.map_some]
      split
      · exact .bind (failStop_freshId _) fun _ => .pure _
      · exact .pure _

/-! ## §4 Operations -/

theorem failStop_save (name : String) (settings : SettingMap) :
    (Procedure.save name settings).FailStop Effect.isAny := by
  unfold Procedure.save
  split
  · exact .throw _
  · exact .bind failStop_read.any fun doc =>
      .bind (failStop_withRateLimit doc name settings).any fun full =>
      .bind (failStop_upsert doc name full).any fun r => .bind (failStop_ofDocument r) fun _ =>
      .bind (failStop_commit _) fun _ => .pure _

theorem failStop_activate (doc : Document) (name : String) :
    (activate doc name).FailStop Effect.isAny :=
  .bind (failStop_ofDocument _) fun _ => .bind (failStop_ofDocument _) fun _ =>
    .bind (failStop_commit _) fun _ => .pure _

/-- **Every operation ends with the first storage call that goes wrong.** -/
theorem failStop_body (op : Operation) : op.body.FailStop Effect.isAny := by
  cases op with
  | save name settings => exact failStop_save name settings
  | load name =>
    exact .bind failStop_read.any fun doc => .bind (failStop_activate doc name) fun _ => .pure _
  | loadById id =>
    refine .bind failStop_read.any fun doc => ?_
    cases doc.profileById? id with
    | none => exact .throw _
    | some found => exact .bind (failStop_activate doc found.1) fun _ => .pure _
  | profile name => exact .bind failStop_read.any fun doc => failStop_ofDocument _
  | delete name =>
    exact .bind failStop_read.any fun doc => .bind (failStop_ofDocument _) fun r =>
      .bind (failStop_commit r.2) fun _ => .pure _
  | setCurrent name =>
    exact .bind failStop_read.any fun doc => .bind (failStop_ofDocument _) failStop_commit
  | bindMode mode id => exact .bind failStop_read.any fun doc => failStop_commit _
  | exportDocument => exact failStop_read.any
  | importDocument doc =>
    exact .bind (failStop_ofDocument _) fun _ => .bind (failStop_upgradeDetached doc).any fun r =>
      .bind (failStop_commit r.document) fun _ => .pure _
  | reset => exact .bind failStop_delete.any fun _ => (failStop_publish _).any
  | prepare | list | current | contains | modeBinding | snapshot =>
    exact .bind failStop_read.any fun _ => .pure _

end Procedure

/-! ## §5 Failing runs -/

namespace Program

variable {α : Type} {s : Surroundings Effect Effect.Answer} {n : Nat} {f : Fault}
  {kind : Effect → Bool}

/-- Every exchange of a run is of the kind of calls that the program makes. -/
theorem FailStop.extends_of_kind {p : Program Effect Effect.Answer (Except StoreError α)}
    (hp : p.FailStop kind) (h : History) :
    ∃ more : History, (p.converse s h).2 = h ++ more ∧ ∀ x ∈ more, kind x.question = true := by
  induction hp generalizing h with
  | done r => exact ⟨[], by simp, by simp⟩
  | @ask q next hq _ _ ih =>
    obtain ⟨more, hmore, hkind⟩ := ih (s h q) (h ++ [⟨q, s h q⟩])
    refine ⟨⟨q, s h q⟩ :: more, by rw [converse_ask, hmore]; simp, ?_⟩
    intro x hx
    rcases List.mem_cons.mp hx with rfl | hx
    · exact hq
    · exact hkind x hx

/-- **The storage call that goes wrong is the last one.** Against surroundings that
fail at the storage call with number `n`, a program makes the calls that it makes
when nothing goes wrong, with the same answers, up to this one; and with this one
it fails. -/
theorem FailStop.converse_failing {p : Program Effect Effect.Answer (Except StoreError α)}
    (hp : p.FailStop kind) {h : History} (hfree : History.FaultFree (p.converse s h).2)
    (hle : (History.storageCalls h).length ≤ n)
    (hn : n < (History.storageCalls (p.converse s h).2).length) :
    ∃ (before after : History) (x : Exchange Effect Effect.Answer),
      (p.converse s h).2 = before ++ x :: after ∧ x.question.isStorage = true ∧
      before.storageCalls.length = n ∧
      p.converse (s.failing n f) h =
        (.error (.ofFault f), before ++ [⟨x.question, x.question.faulty f x.answer⟩]) := by
  induction hp generalizing h with
  | done r =>
    have : n < (History.storageCalls h).length := hn
    omega
  | @ask q next _ hfault _ ih =>
    rw [converse_ask] at hfree hn ⊢
    by_cases hhere : q.isStorage = true ∧ (History.storageCalls h).length = n
    · obtain ⟨more, hmore⟩ :=
        (next (s h q)).converse_extends s (h ++ [⟨q, s h q⟩])
      refine ⟨h, more, ⟨q, s h q⟩, by rw [hmore]; simp, hhere.1, hhere.2, ?_⟩
      have hfails : s.failing n f h q = q.faulty f (s h q) := if_pos hhere.2
      rw [converse_ask, hfails, hfault _ f (Effect.fault?_faulty hhere.1 f _)]
      rfl
    · have hsame : s.failing n f h q = s h q := by
        unfold Surroundings.failing
        split
        · rename_i hlength
          exact Effect.faulty_eq_self
            (Bool.eq_false_iff.mpr fun hstorage => hhere ⟨hstorage, hlength⟩) f _
        · rfl
      have hle' : (History.storageCalls (h ++ [⟨q, s h q⟩])).length ≤ n := by
        rw [History.storageCalls_append, List.length_append]
        cases hstorage : q.isStorage with
        | true =>
          have : (History.storageCalls h).length ≠ n := fun hlength => hhere ⟨hstorage, hlength⟩
          simp [History.storageCalls, hstorage] at this hle ⊢
          omega
        | false => simpa [History.storageCalls, hstorage] using hle
      rw [converse_ask, hsame]
      exact ih (s h q) hfree hle' hn

end Program

end SettingProfiles
