/-
SettingProfiles.Proofs.Store.Permanence — what runs that neither import nor reset keep.

Each operation keeps within its frame, whatever was repaired or upgraded before, so two
things last over a run of any length: an id that was once reported for a profile is
that of the profile for as long as the profile is there, and an upgrade once recorded
stays recorded. Both are said of the stored text, so they outlast failures: what fails
leaves the text that reading left.

  §1 Stored documents — `StoredHas`: a property of the document that is stored.
  §2 Reading          — of a stored text that lacks nothing.
  §3 Single steps     — what a step reports, and what is stored after it.
  §4 Profiles         — over a stretch of a run all reports of an id agree.
  §5 Flags            — through repair, upgrades and failures.
  §6 Runs             — `operations_keep_to_their_frame`.
-/
import SettingProfiles.Proofs.Document.OwnText
import SettingProfiles.Proofs.Store.Frame
import SettingProfiles.Proofs.Store.UpgradedOnce

namespace SettingProfiles

open History (Commits OnlyLooks StoredIs Unchanged)

variable {initial : Option String} {s : Surroundings Effect Effect.Answer} {h h' : History}
  {doc doc' : Document} {op : Operation} {name id flag : String} {P : Document → Prop}

/-! ## §1 Stored documents -/

/-- The stored document has the property. A text that cannot be read is that of the
document it was written for. -/
def StoredHas (P : Document → Prop) (stored : Option String) : Prop :=
  ∃ text ∈ stored, ∃ doc : Document,
    (Document.decode? text = some doc ∨ text = doc.encode) ∧ P doc

theorem History.StoredIs.storedHas (hs : StoredIs initial h doc) (hdoc : P doc) :
    StoredHas P (h.stored initial) := by
  obtain ⟨text, htext, hor⟩ := hs
  exact ⟨text, htext, doc, hor, hdoc⟩

/-- If the text can be read, the property is one of the document that is read. -/
theorem StoredHas.of_decode? {text : String}
    (hP : ∀ d d' : Document, d.ReadAs d' → P d → P d') (hstored : StoredHas P (some text))
    (hdecode : Document.decode? text = some doc) : P doc := by
  obtain ⟨_, ⟨⟩, d, hd | rfl, hPd⟩ := hstored
  · rw [hdecode] at hd
    cases hd
    exact hPd
  · rw [Document.decode?_encode] at hdecode
    exact hP d doc (Document.readAs_of_reread? hdecode) hPd

namespace Document

/-- The flag is set in the document. -/
def HasFlag (doc : Document) (flag : String) : Prop := doc.upgradeFlags.get? flag = some true

theorem ReadAs.hasFlag (hread : doc.ReadAs doc') (hflag : doc.HasFlag flag) :
    doc'.HasFlag flag := by
  unfold HasFlag
  rw [hread.upgradeFlags]
  exact hflag

theorem ReadAs.hasProfile (hread : doc.ReadAs doc') (hid : doc.HasProfile name id) :
    doc'.HasProfile name id := by
  unfold HasProfile at *
  have hprofile := hread.profiles name
  generalize doc.profiles.get? name = p at hid hprofile
  generalize doc'.profiles.get? name = p' at hprofile ⊢
  cases hprofile with
  | none => cases hid
  | some hp =>
    rw [Option.map_some, hp.id]
    exact hid

end Document

/-! ## §2 Reading -/

namespace Procedure

/-- Reading a text that lacks nothing is one `get`. -/
theorem ensures_read_upToDate (fair : Fair initial s) {text : String}
    (hstored : initial = some text) (hkept : UpToDateText initial) :
    read.Ensures s []
      (fun d h' => Document.decode? text = some d ∧ OnlyLooks [] h')
      fun _ h' => OnlyLooks [] h' := by
  have hlook : ∀ answer, OnlyLooks [] [⟨.get, answer⟩] := fun answer =>
    (OnlyLooks.refl []).snoc rfl
  cases hget : s [] .get with
  | error f =>
    rw [ensures_read_fault hget]
    exact hlook _
  | ok answer =>
    obtain rfl : answer = some text := (fair.get_eq [] answer hget).trans hstored
    cases hdecode : Document.decode? text with
    | none =>
      rw [ensures_read_text hget, hdecode]
      exact hlook _
    | some doc =>
      obtain ⟨hsound, hupToDate⟩ := (hstored ▸ hkept).decoded hdecode
      rw [ensures_read_present hget hdecode hsound hupToDate]
      exact ⟨rfl, hlook _⟩

/-- A profile that is stored with its id is read with it. -/
theorem hasProfile_of_read (fair : Fair initial s) (hkept : UpToDateText initial)
    (hid : StoredHas (·.HasProfile name id) initial)
    (hread : read.run.converse s [] = (.ok doc, h)) : doc.HasProfile name id := by
  have hhas := hid
  obtain ⟨text, rfl, -⟩ := hhas
  have hdecode := (ensures_read_upToDate fair rfl hkept).of_ok hread
  exact hid.of_decode? (fun _ _ hread => hread.hasProfile) hdecode.1

end Procedure

namespace Operation

open Procedure

/-! ## §3 Single steps -/

/-- The step shows this id for the profile of this name, in its result or in what it
announced. -/
def Step.Reports (x : Step) (name id : String) : Prop :=
  (∃ r, x.outcome.result = .ok r ∧ x.outcome.operation.Reports r name id) ∨
    ∃ snap : Snapshot, .changed snap ∈ x.calls.events ∧ snap.Shows name id

/-- The step deleted the profile of this name. -/
def Step.Deletes (x : Step) (name : String) : Prop :=
  x.outcome.operation.deleted? = some name ∧ x.outcome.result.isOk = true

/-- A step that is no replacement has performed, or it left the text that reading left. -/
theorem step_performs_or_fails (fair : Fair initial s) (h : History) (hop : op.replaces = false) :
    (∃ doc h₁ r doc', read.run.converse (s.after h) [] = (.ok doc, h₁) ∧
        (op.step s h).outcome = ⟨op, .ok r⟩ ∧ op.Performs doc h₁ r (op.step s h).calls doc') ∨
      ((∃ e, (op.step s h).outcome = ⟨op, .error ⟨op, e⟩⟩) ∧
        Unchanged (op.afterReading (s.after h) []) (op.step s h).calls) := by
  have hbody := (ensures_body_performs (fair.after h) op hop).and
    (ensures_body_unchanged (s := s.after h) (h := []) op)
  rcases step_of_body hbody with ⟨r, houtcome, ⟨doc, h₁, hread, doc', hp⟩, -⟩ | ⟨e, houtcome, -, he⟩
  · exact .inl ⟨doc, h₁, r, doc', hread, houtcome, hp⟩
  · exact .inr ⟨⟨e, houtcome⟩, he⟩

/-- A step that returns and does not delete the profile is no deletion of it. -/
theorem deleted?_ne_of_keeps {r : op.Result} (houtcome : (op.step s h).outcome = ⟨op, .ok r⟩)
    (hkeeps : ¬ (op.step s h).Deletes name) : op.deleted? ≠ some name := by
  intro hdeletes
  refine hkeeps ⟨by rwa [operation_step], ?_⟩
  rw [houtcome]
  rfl

/-- What a step reports is in the document that it read or in the one that it left. -/
theorem hasProfile_of_reports {x : Step} {r : op.Result} (houtcome : x.outcome = ⟨op, .ok r⟩)
    (hp : op.Performs doc h r x.calls doc') (hsilent : h.events = []) (hx : x.Reports name id) :
    doc.HasProfile name id ∨ doc'.HasProfile name id := by
  have hevents := hp.events_eq
  obtain ⟨o, calls⟩ := x
  cases houtcome
  rcases hx with ⟨r', hr', hreports⟩ | ⟨snap, hsnap, hshows⟩
  · cases hr'
    exact hp.reports name id hreports
  · rw [hevents, hsilent, List.nil_append] at hsnap
    split at hsnap
    · rw [List.mem_singleton, StoreEvent.changed.injEq] at hsnap
      exact .inr (Document.hasProfile_of_shows (hsnap ▸ hshows))
    · cases hsnap

/-- A step that reports something has returned. -/
theorem performs_of_reports (fair : Fair initial s) (hop : op.replaces = false)
    (hx : (op.step s h).Reports name id) :
    ∃ doc h₁ r doc', read.run.converse (s.after h) [] = (.ok doc, h₁) ∧
      (op.step s h).outcome = ⟨op, .ok r⟩ ∧ op.Performs doc h₁ r (op.step s h).calls doc' ∧
      ∀ name id, (op.step s h).Reports name id →
        doc.HasProfile name id ∨ doc'.HasProfile name id := by
  rcases step_performs_or_fails fair h hop with
    ⟨doc, h₁, r, doc', hread, houtcome, hp⟩ | ⟨⟨e, houtcome⟩, hsame⟩
  · exact ⟨doc, h₁, r, doc', hread, houtcome, hp, fun name id =>
      hasProfile_of_reports houtcome hp (events_of_read hread)⟩
  · have hsilent : (op.step s h).calls.events = [] :=
      hsame.events_eq.trans (events_afterReading op (s.after h) [])
    generalize op.step s h = x at hx houtcome hsilent
    obtain ⟨o, calls⟩ := x
    cases houtcome
    rcases hx with ⟨r, hr, -⟩ | ⟨snap, hsnap, -⟩
    · cases hr
    · rw [hsilent] at hsnap
      cases hsnap

/-- The reports of one step agree. -/
theorem reports_unique {id' : String} (fair : Fair initial s) (hop : op.replaces = false)
    (hx : (op.step s h).Reports name id) (hx' : (op.step s h).Reports name id') : id = id' := by
  obtain ⟨doc, h₁, r, doc', -, -, hp, hreports⟩ := performs_of_reports fair hop hx
  exact hp.frame.unique (hreports name id hx) (hreports name id' hx')

/-- A profile that was reported and not deleted by the same step is stored with its id. -/
theorem storedHas_of_reports (fair : Fair initial s) (hop : op.replaces = false)
    (hx : (op.step s h).Reports name id) (hkeeps : ¬ (op.step s h).Deletes name) :
    StoredHas (·.HasProfile name id) (History.stored initial (h ++ (op.step s h).calls)) := by
  obtain ⟨doc, h₁, r, doc', hread, houtcome, hp, hreports⟩ := performs_of_reports fair hop hx
  have hdeleted := deleted?_ne_of_keeps houtcome hkeeps
  rw [History.stored_append]
  refine (hp.storedIs (storedIs_of_read (fair.after h) hread)).storedHas ?_
  exact (hreports name id hx).elim (hp.frame.hasProfile hdeleted) fun hid => hid

/-- Where a profile is stored with its id, a step reports no other. -/
theorem reports_of_stored {id' : String} (fair : Fair initial s) (hop : op.replaces = false)
    (hkept : UpToDateText (h.stored initial))
    (hid : StoredHas (·.HasProfile name id) (h.stored initial))
    (hx : (op.step s h).Reports name id') : id' = id := by
  obtain ⟨doc, h₁, r, doc', hread, -, hp, hreports⟩ := performs_of_reports fair hop hx
  exact hp.frame.unique (hreports name id' hx)
    (.inl (hasProfile_of_read (fair.after h) hkept hid hread))

/-- Reading leaves a text that lacks nothing as it is, even if it fails. -/
theorem stored_afterReading_of_upToDate (fair : Fair initial s) {text : String}
    (hstored : initial = some text) (hkept : UpToDateText initial) (op : Operation) :
    (op.afterReading s []).stored initial = initial :=
  op.afterReading_of_read (P := fun h => h.stored initial = initial) rfl
    ((ensures_read_upToDate fair hstored hkept).mono
      (fun _ _ hd => hd.2.stored_eq initial) fun _ _ he => he.stored_eq initial)

/-- A profile that is stored with its id stays stored with it, unless it is deleted. -/
theorem storedHas_step (fair : Fair initial s) (hop : op.replaces = false)
    (hkept : UpToDateText (h.stored initial))
    (hid : StoredHas (·.HasProfile name id) (h.stored initial))
    (hkeeps : ¬ (op.step s h).Deletes name) :
    StoredHas (·.HasProfile name id) (History.stored initial (h ++ (op.step s h).calls)) := by
  rw [History.stored_append]
  rcases step_performs_or_fails fair h hop with
    ⟨doc, h₁, r, doc', hread, houtcome, hp⟩ | ⟨-, hsame⟩
  · have hdeleted := deleted?_ne_of_keeps houtcome hkeeps
    refine (hp.storedIs (storedIs_of_read (fair.after h) hread)).storedHas ?_
    exact hp.frame.hasProfile hdeleted (hasProfile_of_read (fair.after h) hkept hid hread)
  · have hhas := hid
    obtain ⟨text, hstored, -⟩ := hhas
    rw [hsame.stored_eq, stored_afterReading_of_upToDate (fair.after h) hstored hkept]
    exact hid

/-! ## §4 Profiles -/

/-- The steps but the last of a longer run. -/
theorem mem_dropLast_of_cons {x y : Step} {rest : List Step} (hy : y ∈ rest) :
    x ∈ (x :: rest).dropLast ∧ ∀ z ∈ rest.dropLast, z ∈ (x :: rest).dropLast := by
  rw [List.dropLast_cons_of_ne_nil (List.ne_nil_of_mem hy)]
  exact ⟨List.mem_cons_self, fun z hz => List.mem_cons_of_mem _ hz⟩

/-- Where a profile is stored with its id, no other is reported until it is deleted. -/
theorem reports_of_stored_steps (fair : Fair initial s) {ops : List Operation}
    (hops : ∀ op ∈ ops, op.replaces = false) {h : History} (hkept : UpToDateText (h.stored initial))
    (hid : StoredHas (·.HasProfile name id) (h.stored initial))
    (hkeeps : ∀ z ∈ (steps s ops h).dropLast, ¬ z.Deletes name) :
    ∀ y ∈ steps s ops h, ∀ id', y.Reports name id' → id' = id := by
  induction ops generalizing h with
  | nil => simp [steps]
  | cons op ops ih =>
    intro y hy id' hreports
    have hop := hops op (by simp)
    rw [steps] at hy hkeeps
    rcases List.mem_cons.mp hy with rfl | hy
    · exact reports_of_stored fair hop hkept hid hreports
    · obtain ⟨hfirst, hlater⟩ := mem_dropLast_of_cons (x := op.step s h) hy
      exact ih (fun op hop => hops op (List.mem_cons_of_mem _ hop))
        (upToDateText_step fair h op (.inr hkept))
        (storedHas_step fair hop hkept hid (hkeeps _ hfirst))
        (fun z hz => hkeeps z (hlater z hz)) y hy id' hreports

/-- All that is reported of a profile until it is deleted agrees. -/
theorem reports_agree (fair : Fair initial s) {ops : List Operation}
    (hops : ∀ op ∈ ops, op.replaces = false) {h : History}
    (hkeeps : ∀ z ∈ (steps s ops h).dropLast, ¬ z.Deletes name) :
    ∀ x ∈ steps s ops h, ∀ y ∈ steps s ops h, ∀ id id',
      x.Reports name id → y.Reports name id' → id = id' := by
  induction ops generalizing h with
  | nil => simp [steps]
  | cons op ops ih =>
    have hop := hops op (by simp)
    have hops' : ∀ op ∈ ops, op.replaces = false := fun op hop =>
      hops op (List.mem_cons_of_mem _ hop)
    rw [steps] at hkeeps ⊢
    by_cases hfirst : ∃ first, (op.step s h).Reports name first
    · -- the first step has reported an id, so that one is stored from then on
      obtain ⟨first, hfirst⟩ := hfirst
      have hall : ∀ x ∈ op.step s h :: steps s ops (h ++ (op.step s h).calls), ∀ id,
          x.Reports name id → id = first := by
        intro x hx id hreports
        rcases List.mem_cons.mp hx with rfl | hx
        · exact reports_unique fair hop hreports hfirst
        · obtain ⟨hhead, hlater⟩ := mem_dropLast_of_cons (x := op.step s h) hx
          obtain ⟨doc, h₁, r, doc', -, houtcome, -, -⟩ := performs_of_reports fair hop hfirst
          exact reports_of_stored_steps fair hops'
            (upToDateText_step fair h op (.inl (by rw [houtcome]; rfl)))
            (storedHas_of_reports fair hop hfirst (hkeeps _ hhead))
            (fun z hz => hkeeps z (hlater z hz)) x hx id hreports
      intro x hx y hy id id' hxid hyid
      exact (hall x hx id hxid).trans (hall y hy id' hyid).symm
    · intro x hx y hy id id' hxid hyid
      rcases List.mem_cons.mp hx with rfl | hx
      · exact absurd ⟨id, hxid⟩ hfirst
      · rcases List.mem_cons.mp hy with rfl | hy
        · exact absurd ⟨id', hyid⟩ hfirst
        · obtain ⟨-, hlater⟩ := mem_dropLast_of_cons (x := op.step s h) hx
          exact ih hops' (fun z hz => hkeeps z (hlater z hz)) x hx y hy id id' hxid hyid

/-- A profile that is stored with its id stays stored with it until it is deleted. -/
theorem storedHas_steps (fair : Fair initial s) {ops : List Operation}
    (hops : ∀ op ∈ ops, op.replaces = false) {h : History} (hkept : UpToDateText (h.stored initial))
    (hid : StoredHas (·.HasProfile name id) (h.stored initial))
    (hkeeps : ∀ z ∈ steps s ops h, ¬ z.Deletes name) :
    StoredHas (·.HasProfile name id)
      (History.stored initial (h ++ (steps s ops h).flatMap Step.calls)) := by
  induction ops generalizing h with
  | nil =>
    rw [steps, List.flatMap_nil, List.append_nil]
    exact hid
  | cons op ops ih =>
    rw [steps, List.flatMap_cons, ← List.append_assoc]
    rw [steps, List.forall_mem_cons] at hkeeps
    exact ih (fun op hop => hops op (List.mem_cons_of_mem _ hop))
      (upToDateText_step fair h op (.inr hkept))
      (storedHas_step fair (hops op (by simp)) hkept hid hkeeps.1) hkeeps.2

/-- A profile that was reported is stored with its id until it is deleted. -/
theorem storedHas_of_reports_steps (fair : Fair initial s) {ops : List Operation}
    (hops : ∀ op ∈ ops, op.replaces = false) {h : History}
    (hkeeps : ∀ z ∈ steps s ops h, ¬ z.Deletes name) :
    ∀ x ∈ steps s ops h, ∀ id, x.Reports name id → StoredHas (·.HasProfile name id)
      (History.stored initial (h ++ (steps s ops h).flatMap Step.calls)) := by
  induction ops generalizing h with
  | nil => simp [steps]
  | cons op ops ih =>
    have hop := hops op (by simp)
    have hops' : ∀ op ∈ ops, op.replaces = false := fun op hop =>
      hops op (List.mem_cons_of_mem _ hop)
    intro x hx id hreports
    rw [steps, List.flatMap_cons, ← List.append_assoc]
    rw [steps, List.forall_mem_cons] at hkeeps
    rw [steps] at hx
    rcases List.mem_cons.mp hx with rfl | hx
    · -- what reports has returned, so nothing is repaired or upgraded from here on
      obtain ⟨doc, h₁, r, doc', -, houtcome, -, -⟩ := performs_of_reports fair hop hreports
      exact storedHas_steps fair hops' (upToDateText_step fair h op (.inl (by rw [houtcome]; rfl)))
        (storedHas_of_reports fair hop hreports hkeeps.1) hkeeps.2
    · exact ih hops' hkeeps.2 x hx id hreports

end Operation

/-! ## §5 Flags -/

namespace Procedure

theorem hasFlag_upgraded (hflag : doc.HasFlag flag) (fills : List (String × Setting))
    (upgrade : String) : ((Upgrade.fillAll doc fills).2.markApplied upgrade).HasFlag flag := by
  unfold Document.HasFlag Document.markApplied
  rw [SortedMap.get?_insert]
  split
  · rfl
  · rw [Upgrade.fillAll_upgradeFlags]
    exact hflag

theorem storedHas_persisted {answer : Except Fault Unit} (hdoc : P doc)
    (hstored : StoredHas P (h.stored initial)) :
    StoredHas P (History.stored initial (h ++ [⟨.set doc.encode, answer⟩])) := by
  cases answer with
  | ok _ =>
    have hs : StoredIs initial (h ++ [⟨.set doc.encode, .ok ()⟩]) doc := History.storedIs_set
    exact hs.storedHas hdoc
  | error f =>
    rw [History.stored_append]
    exact hstored

theorem storedHas_looked (hlooks : OnlyLooks h h') (hstored : StoredHas P (h.stored initial)) :
    StoredHas P (h'.stored initial) := by
  rwa [hlooks.stored_eq]

/-- Upgrades that are stored one after the other clear no flag, even if they break off. -/
theorem ensures_storeUpgrades_hasFlag (hsound : doc.Sound) (hflag : doc.HasFlag flag)
    (hstored : StoredHas (·.HasFlag flag) (h.stored initial)) :
    (doc.pending.foldlM (fun d u => do
      let next ← d.applyUpgrade u
      persist next
      return next) doc : Procedure Document).Ensures s h
      (fun d h' => d.HasFlag flag ∧ StoredHas (·.HasFlag flag) (h'.stored initial))
      fun _ h' => StoredHas (·.HasFlag flag) (h'.stored initial) := by
  -- the invariant is about the stored document too: that is what a fault leaves behind
  refine (ensures_foldlM (I := fun _ d h' => d.Sound ∧ d.HasFlag flag ∧
    StoredHas (·.HasFlag flag) (h'.stored initial)) _ ?_ ⟨hsound, hflag, hstored⟩).mono
    (fun _ _ hd => hd.2) fun _ _ he => he
  rintro u us d k ⟨hd, hdflag, hk⟩
  rw [ensures_bind]
  refine (ensures_applyUpgrade hd.validate_eq_ok u).mono ?_ fun _ _ he => storedHas_looked he.1 hk
  rintro next k' ⟨hlooks, legacy, rfl⟩
  have hnext := hasFlag_upgraded hdflag (u.fills legacy) u.name
  rw [ensures_bind, ensures_persist]
  split
  · exact ⟨(Upgrade.sound_fillAll hd _).markApplied _, hnext,
      storedHas_persisted hnext (storedHas_looked hlooks hk)⟩
  · exact storedHas_persisted hnext (storedHas_looked hlooks hk)

/-- Repair and upgrades clear no flag, and none in what is stored even if they break off. -/
theorem ensures_ensureUpgraded_hasFlag (draws : DrawsFresh s) (hvalid : doc.validate = .ok ())
    (hflag : doc.HasFlag flag) (hstored : StoredHas (·.HasFlag flag) (h.stored initial)) :
    doc.ensureUpgraded.Ensures s h
      (fun r h' => r.document.HasFlag flag ∧ StoredHas (·.HasFlag flag) (h'.stored initial))
      fun _ h' => StoredHas (·.HasFlag flag) (h'.stored initial) := by
  unfold Document.ensureUpgraded
  rw [ensures_bind]
  refine (ensures_normalise draws hvalid).mono ?_ fun _ _ hf => hf.elim
  rintro repaired h' ⟨hlooks, hsound, hsame⟩
  have hrepaired : repaired.HasFlag flag := by
    unfold Document.HasFlag
    rw [hsame.upgradeFlags]
    exact hflag
  have hlooked := storedHas_looked hlooks hstored
  cases doc.isNormal with
  | true =>
    simp only [if_true]
    rw [ensures_bind]
    exact (ensures_storeUpgrades_hasFlag hsound hrepaired hlooked).mono (fun _ _ hd => hd)
      fun _ _ he => he
  | false =>
    simp only [if_false, Bool.false_eq_true]
    rw [ensures_bind, ensures_persist]
    split
    · rw [ensures_bind]
      exact (ensures_storeUpgrades_hasFlag hsound hrepaired
        (storedHas_persisted hrepaired hlooked)).mono (fun _ _ hd => hd) fun _ _ he => he
    · exact storedHas_persisted hrepaired hlooked

theorem ensures_read_hasFlag (fair : Fair initial s)
    (hstored : StoredHas (·.HasFlag flag) initial) :
    read.Ensures s []
      (fun d (h : History) => d.HasFlag flag ∧ StoredHas (·.HasFlag flag) (h.stored initial))
      fun _ (h : History) => StoredHas (·.HasFlag flag) (h.stored initial) := by
  have hlook : ∀ answer, StoredHas (·.HasFlag flag) (History.stored initial [⟨.get, answer⟩]) :=
    fun _ => hstored
  cases hget : s [] .get with
  | error f =>
    rw [ensures_read_fault hget]
    exact hlook _
  | ok answer =>
    have hhas := hstored
    obtain ⟨text, rfl, -⟩ := hhas
    obtain rfl : answer = some text := fair.get_eq [] answer hget
    rw [ensures_read_text hget]
    cases hdecode : Document.decode? text with
    | none => exact hlook _
    | some doc =>
      have hflag : doc.HasFlag flag := hstored.of_decode? (fun _ _ hread => hread.hasFlag) hdecode
      dsimp only
      cases hvalid : doc.validate with
      | error e => exact hlook _
      | ok _ => exact ensures_ensureUpgraded_hasFlag fair.drawsFresh hvalid hflag (hlook _)

end Procedure

namespace Operation

open Procedure

/-- No step clears a flag in what is stored, even if it fails. -/
theorem hasFlag_step (fair : Fair initial s) (hop : op.replaces = false)
    (hstored : StoredHas (·.HasFlag flag) (h.stored initial)) :
    StoredHas (·.HasFlag flag) (History.stored initial (h ++ (op.step s h).calls)) := by
  have hread' := ensures_read_hasFlag (fair.after h) hstored
  rw [History.stored_append]
  rcases step_performs_or_fails fair h hop with
    ⟨doc, h₁, r, doc', hread, -, hp⟩ | ⟨-, hsame⟩
  · refine (hp.storedIs (storedIs_of_read (fair.after h) hread)).storedHas ?_
    unfold Document.HasFlag
    rw [hp.frame.upgradeFlags]
    exact (hread'.of_ok hread).1
  · rw [hsame.stored_eq]
    exact op.afterReading_of_read
      (P := fun h' => StoredHas (·.HasFlag flag) (h'.stored (h.stored initial))) hstored
      (hread'.mono (fun _ _ hd => hd.2) fun _ _ he => he)

theorem hasFlag_steps (fair : Fair initial s) {ops : List Operation}
    (hops : ∀ op ∈ ops, op.replaces = false) {h : History}
    (hstored : StoredHas (·.HasFlag flag) (h.stored initial)) :
    StoredHas (·.HasFlag flag)
      (History.stored initial (h ++ (steps s ops h).flatMap Step.calls)) := by
  induction ops generalizing h with
  | nil =>
    rw [steps, List.flatMap_nil, List.append_nil]
    exact hstored
  | cons op ops ih =>
    rw [steps, List.flatMap_cons, ← List.append_assoc]
    exact ih (fun op hop => hops op (List.mem_cons_of_mem _ hop))
      (hasFlag_step fair (hops op (by simp)) hstored)

/-! ## §6 Runs -/

/-- What an operation does to a document that lacks nothing. -/
theorem frame_step (fair : Fair initial s) (hop : op.replaces = false) {text : String}
    (hstored : h.stored initial = some text) (hdecode : Document.decode? text = some doc)
    (hsound : doc.Sound) (hupToDate : doc.UpToDate)
    (hok : (op.step s h).outcome.result.isOk = true) :
    ∃ doc', op.Frame doc doc' ∧
      if op.changes then
        History.written (op.step s h).calls = [doc'.encode] ∧
          History.stored initial (h ++ (op.step s h).calls) = some doc'.encode
      else History.written (op.step s h).calls = [] ∧ doc' = doc := by
  have hkept : UpToDateText (h.stored initial) := by
    rw [hstored]
    rintro _ ⟨⟩
    exact ⟨doc, hsound, hupToDate, .inl hdecode⟩
  rcases step_performs_or_fails fair h hop with
    ⟨d, h₁, r, doc', hread, -, hp⟩ | ⟨⟨e, houtcome⟩, -⟩
  · obtain ⟨hd, hlooks⟩ := (ensures_read_upToDate (fair.after h) hstored hkept).of_ok hread
    rw [hdecode] at hd
    cases hd
    have hcalls := hp.calls
    refine ⟨doc', hp.frame, ?_⟩
    split at hcalls
    · rename_i hchanges
      rw [if_pos hchanges, hcalls.written_eq, hlooks.written_eq, History.stored_append]
      exact ⟨rfl, hcalls.stored_eq _⟩
    · rename_i hchanges
      rw [if_neg hchanges, hcalls.2, hlooks.written_eq]
      exact ⟨rfl, hcalls.1⟩
  · rw [houtcome] at hok
    cases hok

/-- **Operations keep to their frame, and runs keep ids and flags.** Let an operation that
neither imports nor resets return, where a document is stored that needs neither repair
nor upgrade. If it is one that changes documents, it hands over one text, which is stored
then: that of a document within the frame. Otherwise it hands over none. Within the frame
the flags are the same, and so are all mode bindings but the one that `bindMode` makes; all
profiles but the one that is saved or deleted are the same, and one that is saved again
keeps its id; and the current name is the same, unless a profile is made current, or the
current one is deleted and the first of the others takes its place.

Hence over every run of such operations, whatever is stored before it and whatever goes
wrong in it: the ids that are reported of a profile agree until it is deleted, by whatever
result or announcement; a profile that was reported and not deleted is stored with that
id; and a flag that is set in the stored document is still set at the end. -/
theorem operations_keep_to_their_frame (fair : Fair initial s) :
    (∀ (op : Operation) (h : History) (text : String) (doc : Document), op.replaces = false →
      h.stored initial = some text → Document.decode? text = some doc →
      doc.validate = .ok () → doc.isNormal = true → doc.UpToDate →
      (op.step s h).outcome.result.isOk = true →
      ∃ doc', op.Frame doc doc' ∧
        if op.changes then
          History.written (op.step s h).calls = [doc'.encode] ∧
            History.stored initial (h ++ (op.step s h).calls) = some doc'.encode
        else History.written (op.step s h).calls = [] ∧ doc' = doc) ∧
    ∀ (h : History) (ops : List Operation), (∀ op ∈ ops, op.replaces = false) →
      let run := steps s ops h
      let last := History.stored initial (h ++ run.flatMap Step.calls)
      (inTurn ops).converse s h = (run.map Step.outcome, h ++ run.flatMap Step.calls) ∧
      (∀ name, (∀ z ∈ run.dropLast, ¬ z.Deletes name) →
        ∀ x ∈ run, ∀ y ∈ run, ∀ id id', x.Reports name id → y.Reports name id' → id = id') ∧
      (∀ name, (∀ z ∈ run, ¬ z.Deletes name) →
        ∀ x ∈ run, ∀ id, x.Reports name id → StoredHas (·.HasProfile name id) last) ∧
      ∀ flag, StoredHas (·.HasFlag flag) (h.stored initial) → StoredHas (·.HasFlag flag) last := by
  refine ⟨fun op h text doc hop hstored hdecode hvalid hnormal hupToDate hok => ?_,
    fun h ops hops => ⟨converse_inTurn_eq_steps s ops h,
      fun name hkeeps => reports_agree fair hops hkeeps,
      fun name hkeeps => storedHas_of_reports_steps fair hops hkeeps,
      fun flag hstored => hasFlag_steps fair hops hstored⟩⟩
  exact frame_step fair hop hstored hdecode (Document.sound_of_isNormal hvalid hnormal)
    hupToDate hok

/-- The theorem for a mode that is bound in a new document, and for a profile that is saved
in an empty storage and then made current. -/
theorem operations_keep_to_their_frame_ordinary :
    let doc := Document.new "x";
    let bind := (bindMode "m" "y").step (ordinary (some doc.encode)) [];
    let run := steps (ordinary none) [.save "a" .empty, .setCurrent "a"] [];
    Fair none (ordinary none) ∧ Fair (some doc.encode) (ordinary (some doc.encode)) ∧
      (∃ doc', (bindMode "m" "y").Frame doc doc' ∧ History.written bind.calls = [doc'.encode]) ∧
      StoredHas (·.HasFlag Upgrade.rateLimit.name) (History.stored (some doc.encode) bind.calls) ∧
      (∀ x ∈ run, ∀ y ∈ run, ∀ id id', x.Reports "a" id → y.Reports "a" id' → id = id') ∧
      StoredHas (·.HasProfile "a" "ii") (History.stored none (run.flatMap Step.calls)) := by
  intro doc bind run
  obtain ⟨hframe, hbind⟩ := operations_keep_to_their_frame (fair_ordinary (some doc.encode))
  obtain ⟨-, hrun⟩ := operations_keep_to_their_frame (fair_ordinary none)
  have hnew : doc.SoundWith fun v => v.reread? = some v := Document.soundWith_new (by decide)
  have hdecode : Document.decode? doc.encode = some doc :=
    Document.decode?_encode_eq_self hnew.values
  obtain ⟨doc', hdoc', hwritten, -⟩ := hframe (bindMode "m" "y") [] doc.encode doc rfl rfl hdecode
    hnew.validate_eq_ok hnew.isNormal (Document.upToDate_new "x") (by decide +kernel)
  obtain ⟨-, -, -, hflags⟩ := hbind [] [bindMode "m" "y"] (by decide)
  have hset : doc.HasFlag Upgrade.rateLimit.name := by
    unfold Document.HasFlag
    decide +kernel
  obtain ⟨-, hagree, hstored, -⟩ := hrun [] [.save "a" .empty, .setCurrent "a"] (by decide)
  have hkeeps : ∀ z ∈ run, ¬ z.Deletes "a" := by
    rintro z hz ⟨hdeletes, -⟩
    have hop : z.outcome.operation ∈ [Operation.save "a" .empty, .setCurrent "a"] := by
      rw [← operations_of_steps (ordinary none) [.save "a" .empty, .setCurrent "a"] []]
      exact List.mem_map_of_mem hz
    simp only [List.mem_cons, List.not_mem_nil, or_false] at hop
    rcases hop with hop | hop <;> rw [hop] at hdeletes <;> cases hdeletes
  have hevents : (run.map fun x => History.events x.calls).head?
      = some [.changed ⟨"default", [⟨"a", "ii", none⟩, ⟨"default", "i", none⟩], .empty⟩] := by
    decide +kernel
  obtain ⟨x, hx, hannounced⟩ := List.mem_map.mp (List.mem_of_mem_head? hevents)
  have hreports : x.Reports "a" "ii" :=
    .inr ⟨_, hannounced ▸ List.mem_singleton_self _, none, List.mem_cons_self⟩
  rw [List.nil_append] at hstored hflags
  rw [steps, steps, List.flatMap_singleton] at hflags
  exact ⟨fair_ordinary none, fair_ordinary _, ⟨doc', hdoc', hwritten⟩,
    hflags _ ⟨doc.encode, rfl, doc, .inr rfl, hset⟩,
    hagree "a" fun z hz => hkeeps z (List.dropLast_subset _ hz),
    hstored "a" hkeeps x hx "ii" hreports⟩

end Operation

end SettingProfiles
