/-
SettingProfiles.Proofs.Store.Resuming — upgrading that is interrupted and taken up
again.

A document is stored after every change on the way, so an attempt that a failing call
cuts short has stored a beginning of the stages (`Document.stages`). The next attempt
begins with the document stored last, and what it has left to do is the rest of them.
However often this happens, the attempts together store what one attempt stores that
is not interrupted.

  §1 Attempts     — `Attempt`, and attempts that take each other up.
  §2 Notes        — what is noted down is what was stored.
  §3 Steady surroundings — the old settings do not change.
  §4 One attempt  — it stores a beginning of the stages.
  §5 All attempts — they store the stages between them.
  §6 Attempts without failing calls — `interrupted_upgrading_resumes`.
-/
import SettingProfiles.Proofs.Store.Keeping
import SettingProfiles.Proofs.Store.UpgradedOnce
import SettingProfiles.Proofs.Upgrade.Stages

namespace SettingProfiles

/-! ## §1 Attempts -/

namespace History

/-- The ids that were drawn. -/
def drawn (h : History) : List String :=
  h.filterMap fun x =>
    match x with
    | ⟨.freshId _, id⟩ => some id
    | _ => none

/-- The texts that were stored, by calls that went well. -/
def accepted (h : History) : List String :=
  h.filterMap fun x =>
    match x with
    | ⟨.set text, .ok ()⟩ => some text
    | _ => none

@[simp] theorem drawn_append (h k : History) : drawn (h ++ k) = drawn h ++ drawn k := by
  simp [drawn]

@[simp] theorem accepted_append (h k : History) :
    accepted (h ++ k) = accepted h ++ accepted k := by
  simp [accepted]

end History

open History (FaultFree OnlyLooks)

namespace Document

/-- Stores the document and notes it down. -/
def persistNoting (doc : Document) : Keeping (List Document) Unit := do
  Keeping.call (Procedure.persist doc)
  Keeping.update fun stored => stored ++ [doc]

/-- `ensureUpgraded`, noting down the documents that have been stored. -/
def ensureUpgradedNoting (doc : Document) : Keeping (List Document) Upgraded := do
  let repaired ← Keeping.call (doc.normalise Procedure.freshId)
  unless doc.isNormal do repaired.persistNoting
  let final ← repaired.pending.foldlM (fun d u => do
    let next ← Keeping.call (d.applyUpgrade u)
    next.persistNoting
    return next) repaired
  return {
    document := final
    applied := repaired.pending
    writes := (if doc.isNormal then 0 else 1) + repaired.pending.length }

end Document

/-- One attempt to bring a document up to date: what came of it, the documents that it
stored, and its calls. -/
structure Attempt where
  result : Except StoreError Upgraded
  stored : List Document
  calls : History

namespace Document

/-- The attempt against the surroundings. -/
def attempt (doc : Document) (s : Surroundings Effect Effect.Answer) : Attempt :=
  let noted := (doc.ensureUpgradedNoting.run.run []).converse s []
  ⟨(doc.ensureUpgraded.run.converse s []).1, noted.1.2, (doc.ensureUpgraded.run.converse s []).2⟩

/-- Attempts against one surroundings after the other. Each begins with the document
that was stored last, or with the one before if none was stored. -/
def attempts (doc : Document) : List (Surroundings Effect Effect.Answer) → List Attempt
  | [] => []
  | s :: rest => doc.attempt s :: ((doc.attempt s).stored.getLastD doc).attempts rest

theorem persistNoting_forgets (doc : Document) :
    doc.persistNoting.Forgets (Procedure.persist doc) := by
  rw [← bind_pure (Procedure.persist doc)]
  exact .bind (.call _) fun _ => .update _

/-- Noting things down changes nothing else. -/
theorem ensureUpgradedNoting_forgets (doc : Document) :
    doc.ensureUpgradedNoting.Forgets doc.ensureUpgraded := by
  have hupgrades : ∀ repaired : Document, Keeping.Forgets
      (repaired.pending.foldlM (fun d u => do
        let next ← Keeping.call (d.applyUpgrade u)
        next.persistNoting
        return next) repaired)
      (repaired.pending.foldlM (fun d u => do
        let next ← d.applyUpgrade u
        Procedure.persist next
        return next) repaired) := fun repaired =>
    .foldlM _ _ fun d u => .bind (.call _) fun next =>
      .bind next.persistNoting_forgets fun _ => .pure _
  unfold ensureUpgradedNoting ensureUpgraded
  refine .bind (.call _) fun repaired => ?_
  cases doc.isNormal with
  | true =>
    simp only [if_true]
    exact .bind (hupgrades repaired) fun _ => .pure _
  | false =>
    simp only [if_false, Bool.false_eq_true]
    exact .bind repaired.persistNoting_forgets fun _ => .bind (hupgrades repaired) fun _ => .pure _

theorem attempt_eq (doc : Document) (s : Surroundings Effect Effect.Answer) :
    doc.attempt s =
      ⟨((doc.ensureUpgradedNoting.run.run []).converse s []).1.1,
        ((doc.ensureUpgradedNoting.run.run []).converse s []).1.2,
        ((doc.ensureUpgradedNoting.run.run []).converse s []).2⟩ := by
  unfold attempt
  rw [doc.ensureUpgradedNoting_forgets.converse_eq s [] []]

/-- What the noting procedure ensures holds of the attempt. -/
theorem attempt_of_ensures {doc : Document} {s : Surroundings Effect Effect.Answer}
    {ok : Upgraded → List Document → History → Prop}
    {err : StoreError → List Document → History → Prop}
    (hrun : doc.ensureUpgradedNoting.Ensures s [] [] ok err) :
    match (doc.attempt s).result with
    | .ok r => ok r (doc.attempt s).stored (doc.attempt s).calls
    | .error e => err e (doc.attempt s).stored (doc.attempt s).calls := by
  unfold Keeping.Ensures Program.Ensures at hrun
  rw [attempt_eq]
  generalize (doc.ensureUpgradedNoting.run.run []).converse s [] = noted at hrun ⊢
  obtain ⟨⟨result, stored⟩, h⟩ := noted
  cases result <;> exact hrun

end Document

/-! ## §2 Notes -/

namespace Keeping

variable {α β : Type}

/-- What is noted down is what was stored. -/
def NotesStored (k : Keeping (List Document) α) : Prop :=
  ∀ (s : Surroundings Effect Effect.Answer) (stored : List Document) (h : History),
    h.accepted = stored.map Document.encode →
    k.Ensures s stored h (fun _ stored' h' => h'.accepted = stored'.map Document.encode)
      fun _ stored' h' => h'.accepted = stored'.map Document.encode

theorem NotesStored.pure (a : α) : (pure a : Keeping (List Document) α).NotesStored :=
  fun _ _ _ hnoted => hnoted

theorem NotesStored.bind {k : Keeping (List Document) α} {f : α → Keeping (List Document) β}
    (hk : k.NotesStored) (hf : ∀ a, (f a).NotesStored) : (k >>= f).NotesStored := by
  intro s stored h hnoted
  rw [ensures_bind]
  exact (hk s stored h hnoted).mono (fun a stored' h' hnoted' => hf a s stored' h' hnoted')
    fun _ _ _ he => he

theorem NotesStored.foldlM {f : α → β → Keeping (List Document) α} (bs : List β) (a : α)
    (hf : ∀ a b, (f a b).NotesStored) : (bs.foldlM f a).NotesStored := by
  induction bs generalizing a with
  | nil => exact .pure a
  | cons b bs ih =>
    rw [List.foldlM_cons]
    exact .bind (hf a b) fun a' => ih a'

/-- Whatever only looks stores nothing. -/
theorem NotesStored.call {p : Procedure α} (hp : p.FailStop Effect.isLook) :
    (call p : Keeping (List Document) α).NotesStored := by
  intro s stored h hnoted
  have hkept : ∀ h' : History, OnlyLooks h h' → h'.accepted = stored.map Document.encode := by
    rintro h' ⟨more, rfl, hmore⟩
    have hnone : History.accepted more = [] := by
      refine List.filterMap_eq_nil_iff.mpr fun x hx => ?_
      obtain ⟨q, a⟩ := x
      have hq : q.isLook = true := hmore _ hx
      cases q <;> first | rfl | cases hq
    rw [History.accepted_append, hnone, hnoted, List.append_nil]
  rw [ensures_call]
  exact (hp.onlyLooks s h).mono (fun _ h' => hkept h') fun _ h' => hkept h'

/-- Storing a document notes it down, unless it fails. -/
theorem ensures_persistNoting {s : Surroundings Effect Effect.Answer} {h : History}
    {doc : Document} {stored : List Document} {ok : Unit → List Document → History → Prop}
    {err : StoreError → List Document → History → Prop} :
    doc.persistNoting.Ensures s stored h ok err ↔
      match s h (.set doc.encode) with
      | .ok () => ok () (stored ++ [doc]) (h ++ [⟨.set doc.encode, .ok ()⟩])
      | .error f => err (.ofFault f) stored (h ++ [⟨.set doc.encode, .error f⟩]) := by
  unfold Document.persistNoting
  rw [ensures_bind, ensures_call, Procedure.ensures_persist]
  cases s h (.set doc.encode) with
  | ok _ => exact ensures_update
  | error f => exact Iff.rfl

theorem NotesStored.persistNoting (doc : Document) : doc.persistNoting.NotesStored := by
  intro s stored h hnoted
  rw [ensures_persistNoting]
  split
  · rw [History.accepted_append, hnoted, List.map_append]
    rfl
  · rw [History.accepted_append, hnoted]
    exact List.append_nil _

end Keeping

open Keeping in
theorem Document.ensureUpgradedNoting_notesStored (doc : Document) :
    doc.ensureUpgradedNoting.NotesStored := by
  have hupgrades : ∀ repaired : Document, NotesStored
      (repaired.pending.foldlM (fun d u => do
        let next ← call (d.applyUpgrade u)
        next.persistNoting
        return next) repaired) := fun repaired =>
    .foldlM _ _ fun d u => .bind (.call (Procedure.failStop_applyUpgrade d u).look) fun next =>
      .bind (.persistNoting next) fun _ => .pure _
  unfold ensureUpgradedNoting
  refine .bind (.call (Procedure.failStop_normalise doc).look) fun repaired => ?_
  cases doc.isNormal with
  | true =>
    simp only [if_true]
    exact .bind (hupgrades repaired) fun _ => .pure _
  | false =>
    simp only [if_false, Bool.false_eq_true]
    exact .bind (.persistNoting repaired) fun _ => .bind (hupgrades repaired) fun _ => .pure _

/-- The texts that an attempt stores are those of the documents that it notes down. -/
theorem Document.accepted_attempt (doc : Document) (s : Surroundings Effect Effect.Answer) :
    (doc.attempt s).calls.accepted = (doc.attempt s).stored.map encode := by
  have hnotes := attempt_of_ensures (doc.ensureUpgradedNoting_notesStored s [] [] rfl)
  split at hnotes <;> exact hnotes

theorem Document.exists_of_mem_attempts {doc : Document} {a : Attempt}
    {ss : List (Surroundings Effect Effect.Answer)} (ha : a ∈ doc.attempts ss) :
    ∃ (start : Document) (s : Surroundings Effect Effect.Answer), a = start.attempt s := by
  induction ss generalizing doc with
  | nil => cases ha
  | cons s ss ih =>
    rw [attempts] at ha
    rcases List.mem_cons.mp ha with rfl | ha
    · exact ⟨doc, s, rfl⟩
    · exact ih ha

/-- The last attempt is the one against the last surroundings. -/
theorem Document.exists_of_getLast?_attempts {doc : Document} {final : Attempt}
    {cuts : List (Surroundings Effect Effect.Answer)} {last : Surroundings Effect Effect.Answer}
    (hfinal : final ∈ (doc.attempts (cuts ++ [last])).getLast?) :
    ∃ start : Document, final = start.attempt last := by
  induction cuts generalizing doc with
  | nil => exact ⟨doc, (Option.some.inj hfinal).symm⟩
  | cons s cuts ih =>
    rw [List.cons_append, attempts] at hfinal
    rw [Option.mem_def, List.getLast?_cons] at hfinal
    cases hrest : (((doc.attempt s).stored.getLastD doc).attempts (cuts ++ [last])).getLast? with
    | none =>
      rw [List.getLast?_eq_none_iff] at hrest
      cases cuts <;> simp [attempts] at hrest
    | some a =>
      rw [hrest] at hfinal
      exact ih (hrest.trans hfinal)

/-! ## §3 Steady surroundings -/

/-- Surroundings in which the old settings do not change and can always be looked at.
The storage may fail. -/
structure Steady (old : String → Option Setting) (s : Surroundings Effect Effect.Answer) : Prop
    extends DrawsFresh s where
  legacy_eq : ∀ (h : History) (key : String), s h (.legacy key) = .ok (old key)

variable {old : String → Option Setting} {s t : Surroundings Effect Effect.Answer} {h : History}
  {doc : Document}

namespace Procedure

/-- Looking old settings up finds what is there, and is all that is done. -/
theorem ensures_readLegacy_steady (steady : Steady old s) (keys : List String) :
    (readLegacy keys).Ensures s h
      (fun values h' => values = .found old keys ∧
        h' = h ++ keys.map fun key => ⟨.legacy key, .ok (old key)⟩)
      fun _ _ => False := by
  unfold readLegacy
  refine Ensures.mono (ensures_foldlM
    (I := fun rest values h' => ∃ done, keys = done ++ rest ∧ values = .found old done ∧
      h' = h ++ done.map fun key => ⟨.legacy key, .ok (old key)⟩) keys ?_
    ⟨[], by simp, rfl, by simp⟩)
    ?_ fun _ _ hf => hf
  · rintro key rest values h' ⟨done, rfl, rfl, rfl⟩
    rw [ensures_bind, ensures_legacy, steady.legacy_eq]
    cases hvalue : old key <;>
      exact ⟨done ++ [key], by simp, by simp [LegacyValues.found, hvalue], by simp [hvalue]⟩
  · rintro values h' ⟨done, hdone, rfl, rfl⟩
    rw [List.append_nil] at hdone
    exact ⟨by rw [hdone], by rw [hdone]⟩

theorem ensures_applyUpgrade_steady (steady : Steady old s) (hvalid : doc.validate = .ok ())
    (u : Upgrade) :
    (doc.applyUpgrade u).Ensures s h
      (fun d h' => d = doc.upgradedBy old u ∧
        h' = h ++ u.legacyKeys.map fun key => ⟨.legacy key, .ok (old key)⟩)
      fun _ _ => False := by
  unfold Document.applyUpgrade
  rw [ensures_bind]
  refine (ensures_readLegacy_steady steady u.legacyKeys).mono ?_ fun _ _ hf => hf
  rintro values h' ⟨rfl, rfl⟩
  rw [Upgrade.apply_eq_ok u _ hvalid]
  exact ⟨rfl, rfl⟩

/-- How a document is repaired depends on the ids that are drawn and on nothing else. -/
theorem ensures_normalise_drawn (doc : Document) :
    (doc.normalise freshId).Ensures s [] (fun d h' => d = doc.repairedWith h'.drawn)
      fun _ _ => False := by
  unfold Document.normalise Document.assignIds
  rw [ensures_bind]
  refine Ensures.mono (ensures_foldlM
    (I := fun names d h' => ∃ done, doc.unidentified = done ++ names ∧
      h'.drawn.length = done.length ∧
      d = (done.zip h'.drawn).foldl (fun d e => d.withId e.1 e.2) doc) _ ?_ ⟨[], by simp, rfl, rfl⟩)
    ?_ fun _ _ hf => hf
  · rintro name names d h' ⟨done, hdone, hlength, rfl⟩
    rw [ensures_bind, ensures_freshId, ensures_pure]
    rw [History.drawn_append]
    refine ⟨done ++ [name], by simp [hdone], ?_, ?_⟩
    · rw [List.length_append, List.length_append, hlength]
      rfl
    · rw [List.zip_append hlength.symm, List.foldl_append]
      rfl
  · rintro d h' ⟨done, hdone, -, rfl⟩
    rw [List.append_nil] at hdone
    rw [ensures_pure, Document.repairedWith, hdone]

end Procedure

namespace History

theorem FaultFree.append {h k : History} (hh : FaultFree h) (hk : FaultFree k) :
    FaultFree (h ++ k) := by
  intro x hx
  rcases List.mem_append.mp hx with hx | hx
  · exact hh x hx
  · exact hk x hx

theorem faultFree_legacy (h : History) (keys : List String) (old : String → Option Setting)
    (hfree : FaultFree h) : FaultFree (h ++ keys.map fun key => ⟨.legacy key, .ok (old key)⟩) := by
  refine hfree.append fun x hx => ?_
  obtain ⟨key, -, rfl⟩ := List.mem_map.mp hx
  rfl

theorem drawn_legacy (h : History) (keys : List String) (old : String → Option Setting) :
    drawn (h ++ keys.map fun key => ⟨.legacy key, .ok (old key)⟩) = drawn h := by
  simp [drawn]

theorem FaultFree.set {h : History} (hfree : FaultFree h) (text : String) :
    FaultFree (h ++ [⟨.set text, .ok ()⟩]) :=
  hfree.append (by simp [FaultFree, Effect.fault?])

theorem not_faultFree_set (h : History) (text : String) (f : Fault) :
    ¬ FaultFree (h ++ [⟨.set text, .error f⟩]) := by
  intro hfree
  have hnone := hfree ⟨.set text, .error f⟩ (by simp)
  cases hnone

theorem drawn_set (h : History) (text : String) (a : Except Fault Unit) :
    drawn (h ++ [⟨.set text, a⟩]) = drawn h := by
  simp [drawn]

end History

/-- Sources do not fail in the way the storage does. -/
theorem Procedure.FailStop.faultFree {α : Type} {p : Procedure α}
    (hp : p.FailStop Effect.isSource) (s : Surroundings Effect Effect.Answer) {h : History}
    (hfree : FaultFree h) : FaultFree (p.run.converse s h).2 := by
  obtain ⟨more, hmore, hsource⟩ := Program.FailStop.extends_of_kind (s := s) hp h
  rw [hmore]
  refine hfree.append fun x hx => ?_
  obtain ⟨q, a⟩ := x
  have hq : q.isSource = true := hsource _ hx
  cases q <;> first | rfl | cases hq

/-! ## §4 One attempt -/

namespace Document

/-- A document on the way to being up to date: what has been stored so far ends with
it, and with the steps that are left makes up the stages. -/
structure Underway (old : String → Option Setting) (doc : Document) (stages stored : List Document)
    (d : Document) : Prop where
  sound : d.Sound
  last : stored.getLastD doc = d
  rest : stored ++ d.upgradeSteps old d.pending = stages

theorem Underway.next {stages stored : List Document} {d : Document} {u : Upgrade}
    {us : List Upgrade} (hd : Underway old doc stages stored d) (hpending : d.pending = u :: us) :
    Underway old doc stages (stored ++ [d.upgradedBy old u]) (d.upgradedBy old u) := by
  refine ⟨hd.sound.upgradedBy u, by simp, ?_⟩
  rw [← hd.rest, hpending, pending_upgradedBy_of_cons hpending]
  simp [upgradeSteps]

/-- What the next attempt has left to do. -/
theorem Underway.stages_eq {stages stored : List Document} {d : Document}
    (hd : Underway old doc stages stored d) (ids : List String) :
    stored ++ d.stages old ids = stages := by
  rw [stages_of_isNormal hd.sound.isNormal, hd.rest]

/-- How far an attempt has come: not through the repair, or to one of the stages. -/
def Reached (old : String → Option Setting) (doc : Document) (stages stored : List Document) :
    Prop :=
  (doc.isNormal = false ∧ stored = []) ∨ ∃ d, Underway old doc stages stored d

end Document

namespace Keeping

open Procedure

theorem ensures_storeUpgrades_noting (steady : Steady old s) {stages stored : List Document}
    {d : Document} (hd : Document.Underway old doc stages stored d) (hfree : FaultFree h) :
    (d.pending.foldlM (fun d u => do
      let next ← call (d.applyUpgrade u)
      next.persistNoting
      return next) d : Keeping (List Document) Document).Ensures s stored h
      (fun d' stored' h' => (Document.Underway old doc stages stored' d' ∧ d'.pending = []) ∧
        FaultFree h' ∧ h'.drawn = h.drawn)
      (fun _ stored' h' => (∃ d', Document.Underway old doc stages stored' d') ∧
        ¬ FaultFree h' ∧ h'.drawn = h.drawn) := by
  refine ensures_foldlM
    (I := fun us d' stored' h' => (Document.Underway old doc stages stored' d' ∧ d'.pending = us) ∧
      FaultFree h' ∧ h'.drawn = h.drawn) _ ?_ ⟨⟨hd, rfl⟩, hfree, rfl⟩
  rintro u us d' stored' h' ⟨⟨hd', hpending⟩, hfree', hdrawn⟩
  rw [ensures_bind, ensures_call]
  refine (ensures_applyUpgrade_steady steady hd'.sound.validate_eq_ok u).mono ?_
    fun _ _ hf => hf.elim
  rintro next k ⟨rfl, rfl⟩
  have hfree'' := History.faultFree_legacy h' u.legacyKeys old hfree'
  have hdrawn' := History.drawn_legacy h' u.legacyKeys old
  rw [ensures_bind, ensures_persistNoting]
  split
  · rw [ensures_pure]
    exact ⟨⟨hd'.next hpending, Document.pending_upgradedBy_of_cons hpending⟩, hfree''.set _,
      (History.drawn_set _ _ _).trans (hdrawn'.trans hdrawn)⟩
  · exact ⟨⟨d', hd'⟩, History.not_faultFree_set _ _ _,
      (History.drawn_set _ _ _).trans (hdrawn'.trans hdrawn)⟩

/-- An attempt stores a beginning of the stages. If no call fails, it is all of them, and
what is returned is the last one. -/
theorem ensures_ensureUpgradedNoting (steady : Steady old s) (hvalid : doc.validate = .ok ()) :
    let ids := History.drawn ((doc.normalise freshId : Procedure Document).run.converse s []).2
    doc.ensureUpgradedNoting.Ensures s [] []
      (fun r stored h' => (Document.Underway old doc (doc.stages old ids) stored r.document ∧
        r.document.pending = []) ∧ FaultFree h' ∧ h'.drawn = ids)
      (fun _ stored h' => Document.Reached old doc (doc.stages old ids) stored ∧
        ¬ FaultFree h' ∧ h'.drawn = ids) := by
  intro ids
  unfold Document.ensureUpgradedNoting
  rw [ensures_bind, ensures_call]
  have hrepair := (ensures_normalise steady.toDrawsFresh hvalid).and
    ((ensures_normalise_drawn (s := s) doc).and
      (ensures_converse (doc.normalise freshId : Procedure Document)))
  have hfree : FaultFree ((doc.normalise freshId : Procedure Document).run.converse s []).2 :=
    (failStop_normalise doc).faultFree s (by simp [FaultFree])
  refine hrepair.mono ?_ fun _ _ hf => hf.1.elim
  rintro repaired h' ⟨⟨-, hsound, -⟩, rfl, hconverse⟩
  obtain rfl : h' = ((doc.normalise freshId : Procedure Document).run.converse s []).2 := by
    rw [hconverse]
  have hpending := Document.pending_repairedWith ids doc
  cases hnormal : doc.isNormal with
  | true =>
    simp only [if_true]
    rw [ensures_bind]
    have hunderway : Document.Underway old doc (doc.stages old ids) [] (doc.repairedWith ids) := by
      refine ⟨hsound, (Document.repairedWith_of_isNormal hnormal ids).symm, ?_⟩
      simp [Document.stages, hnormal, hpending]
    exact (ensures_storeUpgrades_noting steady hunderway hfree).mono (fun _ _ _ hd => hd)
      fun _ _ _ he => ⟨.inr he.1, he.2⟩
  | false =>
    simp only [if_false, Bool.false_eq_true]
    rw [ensures_bind, ensures_persistNoting]
    split
    · rw [ensures_bind]
      have hunderway : Document.Underway old doc (doc.stages old ids) [doc.repairedWith ids]
          (doc.repairedWith ids) := by
        refine ⟨hsound, rfl, ?_⟩
        simp [Document.stages, hnormal, hpending]
      refine (ensures_storeUpgrades_noting steady hunderway (hfree.set _)).mono ?_ ?_
      · intro d stored h' hd
        exact ⟨hd.1, hd.2.1, hd.2.2.trans (History.drawn_set _ _ _)⟩
      · intro e stored h' he
        exact ⟨.inr he.1, he.2.1, he.2.2.trans (History.drawn_set _ _ _)⟩
    · exact ⟨.inl ⟨hnormal, rfl⟩, History.not_faultFree_set _ _ _, History.drawn_set _ _ _⟩

end Keeping

/-! ## §5 All attempts -/

namespace Document

/-- An attempt stores a beginning of the stages that the ids it draws lead to. If none of
its calls fails, it stores all of them, and returns the last one. -/
theorem attempt_reached (steady : Steady old s) (hvalid : doc.validate = .ok ()) :
    Reached old doc (doc.stages old (doc.attempt s).calls.drawn) (doc.attempt s).stored ∧
    (FaultFree (doc.attempt s).calls → ∃ r, (doc.attempt s).result = .ok r ∧
      (doc.attempt s).stored = doc.stages old (doc.attempt s).calls.drawn ∧
      r.document = (doc.stages old (doc.attempt s).calls.drawn).getLastD doc) := by
  have hrun := attempt_of_ensures (Keeping.ensures_ensureUpgradedNoting steady hvalid)
  cases hresult : (doc.attempt s).result with
  | error e =>
    rw [hresult] at hrun
    obtain ⟨hreached, hfault, hdrawn⟩ := hrun
    exact ⟨hdrawn ▸ hreached, fun hfree => absurd hfree hfault⟩
  | ok r =>
    rw [hresult] at hrun
    obtain ⟨⟨hunderway, hpending⟩, -, hdrawn⟩ := hrun
    rw [← hdrawn] at hunderway
    have hstored : (doc.attempt s).stored = doc.stages old (doc.attempt s).calls.drawn := by
      have hrest := hunderway.rest
      rwa [hpending, upgradeSteps, List.append_nil] at hrest
    exact ⟨.inr ⟨_, hunderway⟩, fun _ => ⟨r, rfl, hstored, hstored ▸ hunderway.last.symm⟩⟩

/-- Ids are drawn for the repair only. -/
theorem drawn_attempt (steady : Steady old s) (hvalid : doc.validate = .ok ()) :
    (doc.attempt s).calls.drawn
      = History.drawn
          ((doc.normalise Procedure.freshId : Procedure Document).run.converse s []).2 := by
  have hrun := attempt_of_ensures (Keeping.ensures_ensureUpgradedNoting steady hvalid)
  split at hrun <;> exact hrun.2.2

theorem stages_ne_nil (hnormal : doc.isNormal = false) (ids : List String) :
    doc.stages old ids ≠ [] := by
  simp [stages, hnormal]

/-- Attempts that take each other up store the stages that follow from the ids drawn by
one of them, which began with the document itself and got through the repair. -/
theorem attempts_resume (hvalid : doc.validate = .ok ())
    {cuts : List (Surroundings Effect Effect.Answer)} {last : Surroundings Effect Effect.Answer}
    (hsteady : ∀ s ∈ cuts ++ [last], Steady old s)
    (hlast : ∀ final ∈ (doc.attempts (cuts ++ [last])).getLast?, FaultFree final.calls) :
    ∃ s ∈ cuts ++ [last], doc.attempt s ∈ doc.attempts (cuts ++ [last]) ∧
      (doc.isNormal = false → (doc.attempt s).stored ≠ []) ∧
      (doc.attempts (cuts ++ [last])).flatMap Attempt.stored
        = doc.stages old (doc.attempt s).calls.drawn ∧
      ∃ final ∈ (doc.attempts (cuts ++ [last])).getLast?, ∃ r, final.result = .ok r ∧
        r.document = (doc.stages old (doc.attempt s).calls.drawn).getLastD doc := by
  induction cuts generalizing doc with
  | nil =>
    obtain ⟨-, hreturns⟩ := attempt_reached (hsteady last (by simp)) hvalid
    obtain ⟨r, hr, hstored, hdocument⟩ := hreturns (hlast (doc.attempt last) rfl)
    refine ⟨last, by simp, by simp [attempts], fun hnormal => ?_, ?_, doc.attempt last, rfl, r, hr,
      hdocument⟩
    · rw [hstored]
      exact stages_ne_nil hnormal _
    · simp [attempts, hstored]
  | cons s cuts ih =>
    rw [List.cons_append, attempts] at hlast ⊢
    have hsteady' : ∀ s ∈ cuts ++ [last], Steady old s := fun t ht =>
      hsteady t (List.mem_cons_of_mem _ ht)
    -- the last of all attempts is the last of the later ones
    have hfinal : ∀ (a final : Attempt) (rest : List Attempt), final ∈ rest.getLast? →
        final ∈ (a :: rest).getLast? := by
      intro a final rest hmem
      rw [Option.mem_def] at hmem
      simp [List.getLast?_cons, hmem]
    obtain ⟨hreached, -⟩ := attempt_reached (hsteady s (by simp)) hvalid
    rcases hreached with ⟨hnormal, hstored⟩ | ⟨d, hd⟩
    · simp only [hstored, List.getLastD_nil] at hlast ⊢
      obtain ⟨s', hs', hmem, hrepaired, hall, final, hmemfinal, r, hr, hdocument⟩ :=
        ih hvalid hsteady' fun final hmem => hlast final (hfinal _ _ _ hmem)
      refine ⟨s', List.mem_cons_of_mem _ hs', List.mem_cons_of_mem _ hmem, hrepaired, ?_, final,
        hfinal _ _ _ hmemfinal, r, hr, hdocument⟩
      rw [List.flatMap_cons, hstored, hall, List.nil_append]
    · simp only [hd.last] at hlast ⊢
      obtain ⟨s', hs', hmem, hrepaired, hall, final, hmemfinal, r, hr, hdocument⟩ :=
        ih hd.sound.validate_eq_ok hsteady' fun final hmem => hlast final (hfinal _ _ _ hmem)
      refine ⟨s, by simp, by simp, fun hnormal hnone => ?_, ?_, final, hfinal _ _ _ hmemfinal, r,
        hr, ?_⟩
      · have hlastd := hd.last
        rw [hnone, List.getLastD_nil] at hlastd
        rw [hlastd, hd.sound.isNormal] at hnormal
        cases hnormal
      · rw [List.flatMap_cons, hall, hd.stages_eq]
      · calc r.document
            = (d.stages old (d.attempt s').calls.drawn).getLastD
                ((doc.attempt s).stored.getLastD doc) := by rw [hdocument, hd.last]
          _ = ((doc.attempt s).stored ++ d.stages old (d.attempt s').calls.drawn).getLastD doc := by
                simp
          _ = (doc.stages old (doc.attempt s).calls.drawn).getLastD doc := by rw [hd.stages_eq]

end Document

/-! ## §6 Attempts without failing calls -/

/-- The surroundings, but that no storage call fails. -/
def Surroundings.mended (s : Surroundings Effect Effect.Answer) :
    Surroundings Effect Effect.Answer :=
  fun (h : History) q =>
    match q with
    | .get => .ok none
    | .set _ => .ok ()
    | .delete => .ok ()
    | .legacy key => s h (.legacy key)
    | .freshId inUse => s h (.freshId inUse)
    | .publish event => s h (.publish event)

theorem Steady.mended (steady : Steady old s) : Steady old s.mended where
  ne h inUse := steady.ne h inUse
  not_mem h inUse := steady.not_mem h inUse
  legacy_eq h key := steady.legacy_eq h key

theorem Steady.failing (steady : Steady old s) (n : Nat) (f : Fault) :
    Steady old (s.failing n f) where
  ne h inUse := by
    unfold Surroundings.failing
    split <;> exact steady.ne h inUse
  not_mem h inUse := by
    unfold Surroundings.failing
    split <;> exact steady.not_mem h inUse
  legacy_eq h key := by
    unfold Surroundings.failing
    split <;> exact steady.legacy_eq h key

namespace Program

variable {α : Type}

/-- Surroundings that never fail lead to histories without a failure. -/
theorem faultFree_converse (hs : ∀ (h : History) (q : Effect), q.fault? (s h q) = none)
    (p : Program Effect Effect.Answer α) (hfree : FaultFree h) :
    FaultFree (p.converse s h).2 := by
  induction p generalizing h with
  | done a => exact hfree
  | ask q next ih => exact ih _ (hfree.append (by simp [FaultFree, hs]))

/-- Only the calls that a program makes tell surroundings apart. -/
theorem FailStop.converse_congr {kind : Effect → Bool}
    {p : Program Effect Effect.Answer (Except StoreError α)} (hp : p.FailStop kind)
    (hsame : ∀ (h : History) (q : Effect), kind q = true → s h q = t h q) (h : History) :
    p.converse s h = p.converse t h := by
  induction hp generalizing h with
  | done r => rfl
  | ask hkind _ _ ih => rw [converse_ask, converse_ask, hsame h _ hkind, ih]

end Program

theorem Surroundings.fault?_mended (s : Surroundings Effect Effect.Answer) (h : History)
    (q : Effect) : q.fault? (s.mended h q) = none := by
  cases q <;> rfl

namespace Document

/-- Where no storage call fails, the same ids are drawn. -/
theorem drawn_attempt_mended (steady : Steady old s) (hvalid : doc.validate = .ok ()) :
    (doc.attempt s.mended).calls.drawn = (doc.attempt s).calls.drawn := by
  rw [drawn_attempt steady hvalid, drawn_attempt steady.mended hvalid]
  rw [Program.FailStop.converse_congr (t := s) (Procedure.failStop_normalise doc)]
  intro h q hq
  cases q <;> first | rfl | cases hq

/-- **An interrupted upgrade is taken up where it was left.** Let a document be valid
and the old settings not change. Let any number of attempts to bring it up to date be cut
short by failing calls, each beginning with the document that was stored last, and let
none of the calls of a last attempt fail. (Attempts that are not cut short are allowed
among the others.) Then the last one returns, and one of the attempts, which began with
the document itself and got through its repair, is such that any attempt without failing
calls that draws the same ids, of which there is one,

* returns the same document, and
* stores the documents that all the attempts stored together, in the same order.

Of the documents stored, the repaired one records no upgrade that was not recorded
before, and each other one records one of those that were pending, in their order. -/
theorem interrupted_upgrading_resumes (hvalid : doc.validate = .ok ())
    {cuts : List (Surroundings Effect Effect.Answer)} {last : Surroundings Effect Effect.Answer}
    (hsteady : ∀ s ∈ cuts ++ [last], Steady old s)
    (hlast : ∀ final ∈ (doc.attempts (cuts ++ [last])).getLast?, FaultFree final.calls) :
    let attempts := doc.attempts (cuts ++ [last])
    let stored := attempts.flatMap Attempt.stored
    (∀ a ∈ attempts, a.calls.accepted = a.stored.map encode) ∧
    doc.marks stored = (if doc.isNormal then [] else [[]]) ++ doc.pending.map (fun u => [u]) ∧
    ∃ final ∈ attempts.getLast?, ∃ r, final.result = .ok r ∧
      ∃ s ∈ cuts ++ [last], doc.attempt s ∈ attempts ∧
        (doc.isNormal = false → (doc.attempt s).stored ≠ []) ∧
        (∃ t, Steady old t ∧ FaultFree (doc.attempt t).calls ∧
          (doc.attempt t).calls.drawn = (doc.attempt s).calls.drawn) ∧
        ∀ t, Steady old t → FaultFree (doc.attempt t).calls →
          (doc.attempt t).calls.drawn = (doc.attempt s).calls.drawn →
          ∃ r', (doc.attempt t).result = .ok r' ∧ r'.document = r.document ∧
            (doc.attempt t).stored = stored := by
  intro attempts stored
  obtain ⟨s, hs, hmem, hrepaired, hall, final, hfinal, r, hr, hdocument⟩ :=
    attempts_resume hvalid hsteady hlast
  have hstored : stored = doc.stages old (doc.attempt s).calls.drawn := hall
  refine ⟨?_, ?_, final, hfinal, r, hr, s, hs, hmem, hrepaired, ⟨s.mended, ?_⟩, ?_⟩
  · intro a ha
    obtain ⟨start, s', rfl⟩ := exists_of_mem_attempts ha
    exact accepted_attempt start s'
  · rw [hstored]
    exact marks_stages _
  · refine ⟨(hsteady s hs).mended, ?_, drawn_attempt_mended (hsteady s hs) hvalid⟩
    exact Program.faultFree_converse s.fault?_mended _ (by simp [FaultFree])
  · intro t hsteadyt hfreet hdrawn
    obtain ⟨r', hr', hstored', hdocument'⟩ := (attempt_reached hsteadyt hvalid).2 hfreet
    rw [hdrawn] at hstored' hdocument'
    exact ⟨r', hr', hdocument'.trans hdocument.symm, hstored'.trans hstored.symm⟩

theorem steady_ordinary (initial : Option String) : Steady (fun _ => none) (ordinary initial) where
  toDrawsFresh := (fair_ordinary initial).drawsFresh
  legacy_eq _ _ := rfl

/-- The theorem for a document whose profile has no id and that records no upgrade: the
first attempt is cut short when it stores the first upgraded document. -/
theorem interrupted_upgrading_resumes_ordinary :
    let doc : Document := { Document.new "" with upgradeFlags := .empty };
    let cut := (ordinary none).failing 1 (.panic ⟨"full"⟩);
    let stored := (doc.attempts [cut, ordinary none]).flatMap Attempt.stored
    doc.validate = .ok () ∧ (∀ s ∈ [cut, ordinary none], Steady (fun _ => none) s) ∧
      (doc.attempt cut).result.isOk = false ∧ (doc.attempt cut).stored.length = 1 ∧
      doc.marks stored = [[], [.rateLimit], [.diffSettings]] ∧
      ∃ t, FaultFree (doc.attempt t).calls ∧ (doc.attempt t).stored = stored := by
  intro doc cut stored
  have hvalid : doc.validate = .ok () := by decide
  have hsteady : ∀ s ∈ [cut] ++ [ordinary none], Steady (fun _ => none) s := by
    intro s hs
    simp only [List.cons_append, List.nil_append, List.mem_cons, List.not_mem_nil, or_false] at hs
    rcases hs with rfl | rfl
    · exact (steady_ordinary none).failing 1 _
    · exact steady_ordinary none
  have hlast : ∀ final ∈ (doc.attempts ([cut] ++ [ordinary none])).getLast?,
      FaultFree final.calls := by
    intro final hfinal
    obtain ⟨start, rfl⟩ := exists_of_getLast?_attempts hfinal
    refine Program.faultFree_converse (fun h q => ?_) _ (by simp [FaultFree])
    cases q <;> rfl
  obtain ⟨-, hmarks, final, -, r, -, s, -, -, -, ⟨t, hsteadyt, hfree, hdrawn⟩, hevery⟩ :=
    interrupted_upgrading_resumes hvalid hsteady hlast
  obtain ⟨-, -, -, hstored⟩ := hevery t hsteadyt hfree hdrawn
  refine ⟨hvalid, hsteady, by decide +kernel, by decide +kernel, ?_, t, hfree, hstored⟩
  exact hmarks.trans (by decide)

end Document

end SettingProfiles
