/-
SettingProfiles.Proofs.Store.Announcements — what is announced is what is stored.

A document is announced where it is committed, right after its text was stored, and
nowhere else. Reading may create, repair and upgrade the stored document before that,
and all of it goes by in silence; so does whatever fails. So the announcements of a run
can be read off its operations: those that return and change the document announce it
once each, with a snapshot of the very document that they stored last, and `reset`
announces itself.

  §1 Snapshots  — a document and what its own text is read as look the same in them.
  §2 Operations — `Announces`: the announcements of one operation.
  §3 Looking    — the snapshot that is taken right after an announcement.
  §4 Runs       — `announcements_mirror_storage`.
-/
import SettingProfiles.Proofs.Document.OwnText
import SettingProfiles.Proofs.Store.Concurrency
import SettingProfiles.Proofs.Store.Frame
import SettingProfiles.Proofs.Store.UpgradedOnce

namespace SettingProfiles

open History (Commits OnlyLooks)

variable {initial : Option String} {s : Surroundings Effect Effect.Answer} {h : History}
  {doc doc' : Document}

/-! ## §1 Snapshots -/

theorem Setting.ReadAs.asText?_eq {v v' : Setting} (hread : v.ReadAs v') :
    v'.asText? = v.asText? := by
  cases hread <;> rfl

theorem Profile.ReadAs.providerTag?_eq {p p' : Profile} (hread : p.ReadAs p') :
    p'.providerTag? = p.providerTag? := by
  have hprovider := hread.settings SettingName.provider
  unfold providerTag?
  generalize p.settings.get? SettingName.provider = v at hprovider ⊢
  generalize p'.settings.get? SettingName.provider = v' at hprovider ⊢
  cases hprovider with
  | none => rfl
  | some hv => exact hv.asText?_eq

/-- Lists show no setting but the provider, and that only if it is a text. -/
theorem Document.ReadAs.summaries_eq (hread : doc.ReadAs doc') :
    doc'.summaries = doc.summaries := by
  have hvalues (d : Document) : d.summaries = (d.profiles.mapValues fun name p =>
      (⟨name, p.id, p.providerTag?⟩ : ProfileSummary)).values := by
    simp [summaries, SortedMap.values, SortedMap.mapValues]
  rw [hvalues, hvalues]
  congr 1
  refine SortedMap.ext_get? fun name => ?_
  rw [SortedMap.get?_mapValues, SortedMap.get?_mapValues]
  have hprofile := hread.profiles name
  generalize doc.profiles.get? name = p at hprofile ⊢
  generalize doc'.profiles.get? name = p' at hprofile ⊢
  cases hprofile with
  | none => rfl
  | some hp => simp only [Option.map_some, hp.id, hp.providerTag?_eq]

theorem Document.ReadAs.snapshot_eq (hread : doc.ReadAs doc') : Snapshot.of doc' = .of doc := by
  unfold Snapshot.of
  rw [hread.current, hread.summaries_eq, hread.modeBindings]

namespace Operation

/-! ## §2 Operations -/

/-- What an operation that has returned announced with its calls: if it changes the
document, the document that it stored last, right after storing it; if it is `reset`,
that; and otherwise nothing. -/
def Announces (op : Operation) (calls : History) : Prop :=
  if op.changes then
    ∃ (before : History) (doc : Document),
      calls = before ++ [⟨.set doc.encode, .ok ()⟩, ⟨.publish (.changed (.of doc)), ()⟩] ∧
      calls.events = [.changed (.of doc)]
  else calls.events = if op = .reset then [.reset] else []

/-- What a step announced: what its operation does if it returned, and nothing if it
failed. -/
def Step.Announces (x : Step) : Prop :=
  if x.outcome.result.isOk then x.outcome.operation.Announces x.calls else x.calls.events = []

/-- A commit after silence is one announcement. -/
theorem announces_of_commits {h' : History} (op : Operation) (hop : op.changes = true)
    (hsilent : h.events = []) (hc : Commits h h' doc) : op.Announces h' := by
  have hevents := hc.events_eq
  obtain ⟨looked, -, rfl⟩ := hc
  rw [Announces, if_pos hop]
  exact ⟨looked, doc, rfl, by rw [hevents, hsilent]; rfl⟩

theorem ensures_importDocument_announces (doc : Document) :
    (importDocument doc).body.Ensures s [] (fun _ h' => (importDocument doc).Announces h')
      fun _ _ => True := by
  show (Procedure.importDocument doc).Ensures s [] _ _
  unfold Procedure.importDocument
  rw [Procedure.ensures_bind, Procedure.ensures_ofDocument]
  cases doc.validate with
  | error e => trivial
  | ok _ =>
    dsimp only
    rw [Procedure.ensures_bind]
    refine ((Procedure.failStop_upgradeDetached doc).look.onlyLooks s []).mono ?_
      fun _ _ _ => trivial
    intro upgraded h₁ hlooks
    rw [Procedure.ensures_bind]
    refine Procedure.ensures_commit_commits.mono (fun _ h' hc => ?_) fun _ _ he => he
    exact announces_of_commits (.importDocument doc) rfl hlooks.events_eq hc

theorem ensures_reset_announces :
    reset.body.Ensures s [] (fun _ h' => reset.Announces h') fun _ _ => True := by
  unfold body
  rw [Procedure.ensures_bind, Procedure.ensures_delete]
  cases s [] .delete with
  | ok _ => rfl
  | error f => trivial

/-- An operation that returns has announced what it should. -/
theorem ensures_body_announces (fair : Fair initial s) (op : Operation) :
    op.body.Ensures s [] (fun _ h' => op.Announces h') fun _ _ => True := by
  by_cases hop : op.replaces = true
  · cases op with
    | importDocument doc => exact ensures_importDocument_announces doc
    | reset => exact ensures_reset_announces
    | _ => cases hop
  · rw [Bool.not_eq_true] at hop
    refine (ensures_body_performs fair op hop).mono ?_ fun _ _ he => he
    rintro r h' ⟨doc, h₁, hread, doc', hperforms⟩
    have hsilent := Procedure.events_of_read hread
    have hcalls := hperforms.calls
    cases hchanges : op.changes with
    | true =>
      rw [if_pos hchanges] at hcalls
      exact announces_of_commits op hchanges hsilent hcalls
    | false =>
      rw [if_neg (by simp [hchanges])] at hcalls
      have hreset : op ≠ .reset := by
        rintro rfl
        cases hop
      rw [Announces, if_neg (by simp [hchanges]), if_neg hreset, hcalls.2]
      exact hsilent

/-- A step announces what it should, wherever it is in a run. -/
theorem announces_step (fair : Fair initial s) (h : History) (op : Operation) :
    (op.step s h).Announces := by
  have hbody := (ensures_body_announces (fair.after h) op).and
    (ensures_body_unchanged (s := s.after h) (h := []) op)
  unfold Step.Announces
  rcases step_of_body hbody with ⟨r, houtcome, hr⟩ | ⟨e, houtcome, he⟩
  · rw [houtcome]
    exact hr.1
  · rw [houtcome]
    exact he.2.events_eq.trans (events_afterReading op (s.after h) [])

theorem announces_steps (fair : Fair initial s) (ops : List Operation) (h : History) :
    ∀ x ∈ steps s ops h, x.Announces := by
  induction ops generalizing h with
  | nil => simp [steps]
  | cons op ops ih =>
    intro x hx
    rw [steps, List.mem_cons] at hx
    rcases hx with rfl | hx
    · exact announces_step fair h op
    · exact ih _ x hx

/-! ## §3 Looking -/

/-- What is stored after a document was announced is the text of that document. -/
theorem stored_of_announced {x : Step} (hx : x.Announces) {snap : Snapshot}
    (hmem : .changed snap ∈ x.calls.events) :
    x.outcome.result.isOk = true ∧
      ∃ doc, snap = .of doc ∧ ∀ initial, x.calls.stored initial = some doc.encode := by
  unfold Step.Announces Announces at hx
  split at hx
  · rename_i hok
    refine ⟨hok, ?_⟩
    split at hx
    · obtain ⟨before, doc, hcalls, hevents⟩ := hx
      rw [hevents, List.mem_singleton, StoreEvent.changed.injEq] at hmem
      refine ⟨doc, hmem, fun initial => ?_⟩
      rw [hcalls, History.stored_append]
      rfl
    · rw [hx] at hmem
      split at hmem <;> simp at hmem
  · rw [hx] at hmem
    cases hmem

/-- A snapshot of a stored document that lacks nothing is one `get`. -/
theorem converse_snapshot (fair : Fair initial s) (hstored : h.stored initial = some doc.encode)
    (hkept : UpToDateText (h.stored initial))
    (hdecodes : (Document.decode? doc.encode).isSome = true) {text : Option String}
    (hget : s h .get = .ok text) :
    (outcome .snapshot).converse s h = (⟨.snapshot, .ok (.of doc)⟩, h ++ [⟨.get, .ok text⟩]) := by
  obtain ⟨d, hdecode⟩ := Option.isSome_iff_exists.mp hdecodes
  obtain rfl : text = some doc.encode := (fair.get_eq h text hget).trans hstored
  obtain ⟨hsound, hupToDate⟩ := (hstored ▸ hkept).decoded hdecode
  -- `d` may differ from `doc` in floats, which no snapshot shows
  have hsame : Snapshot.of d = .of doc :=
    (Document.readAs_of_reread? ((Document.decode?_encode doc).symm.trans hdecode)).snapshot_eq
  have hbody : snapshot.body.Ensures s h
      (fun r h' => r = Snapshot.of doc ∧ h' = h ++ [⟨.get, .ok (some doc.encode)⟩])
      fun _ _ => False := by
    show (Procedure.read >>= fun d => pure (Snapshot.of d)).Ensures s h _ _
    rw [Procedure.ensures_bind, Procedure.ensures_read_present hget hdecode hsound hupToDate]
    exact ⟨hsame, rfl⟩
  rcases ensures_outcome hbody with ⟨r, ho, hr, hh'⟩ | ⟨e, -, hf⟩
  · exact Prod.ext (ho.trans (by rw [hr])) hh'
  · exact hf.elim

/-- A snapshot that is taken right after an announcement is the announced one. -/
theorem converse_snapshot_of_announced (fair : Fair initial s) (h : History) (op : Operation)
    {snap : Snapshot} (hmem : .changed snap ∈ (op.step s h).calls.events)
    (hdecodes : ∃ text ∈ History.stored initial (h ++ (op.step s h).calls),
      (Document.decode? text).isSome = true) {text : Option String}
    (hget : s (h ++ (op.step s h).calls) .get = .ok text) :
    (outcome .snapshot).converse s (h ++ (op.step s h).calls) =
      (⟨.snapshot, .ok snap⟩, h ++ (op.step s h).calls ++ [⟨.get, .ok text⟩]) := by
  obtain ⟨hok, doc, rfl, hstored⟩ := stored_of_announced (announces_step fair h op) hmem
  have hdoc : History.stored initial (h ++ (op.step s h).calls) = some doc.encode := by
    rw [History.stored_append, hstored]
  obtain ⟨text', htext', hdecodes⟩ := hdecodes
  rw [hdoc] at htext'
  cases htext'
  exact converse_snapshot fair hdoc (upToDateText_step fair h op (.inl hok)) hdecodes hget

/-! ## §4 Runs -/

/-- However many callers there are, the announcements are those of the admitted operations,
one operation after the other in the order of their admission. -/
theorem events_of_schedule (s : Surroundings Effect Effect.Answer)
    (moves : List (Gate.Move Operation)) :
    ∃ calls : List (String × Operation),
      let desk := Gate.Desk.empty.run s (moves.map (Gate.Move.map outcome))
      let announced := (steps s (calls.map Prod.snd) []).flatMap fun x => x.calls.events
      desk.admitted = calls.map waiting ∧ History.events desk.history <+: announced ∧
        (desk.gate.running = none → History.events desk.history = announced) := by
  obtain ⟨calls, _, hlines⟩ := Gate.Desk.exists_lines s outcome moves
  have hadmitted : (Gate.Desk.empty.run s (moves.map (Gate.Move.map outcome))).admitted
      = calls.map waiting := hlines.admitted_eq
  have hserial := Gate.Desk.serial_run s (moves.map (Gate.Move.map outcome))
  have hprefix := hserial.history_prefix
  rw [hadmitted, converse_inTurn_waiting, converse_inTurn_eq_steps] at hprefix
  refine ⟨calls, hadmitted, ?_, fun hidle => ?_⟩
  · rw [← events_flatMap]
    exact List.IsPrefix.filterMap _ hprefix
  · obtain ⟨hhistory, -⟩ := hserial.of_idle hidle
    rw [hadmitted, converse_inTurn_waiting, converse_inTurn_eq_steps] at hhistory
    rw [← events_flatMap, hhistory]
    rfl

/-- **The announcements mirror the storage.** In every run, whatever was stored before and
whatever goes wrong: the announcements are those of the operations, one operation after
the other. An operation that returns and changes the document announces it once, right
after it stored this very document for the last time; `reset` announces itself once if it
returns; and nothing else is announced, neither by a look that creates, repairs or
upgrades the stored document nor by a failure.

If the document that was announced last can be read and nothing happens in between, a
snapshot returns what was announced, and all that it asks for is the stored text.

With callers at the same time the announcements are those of the admitted operations, in
the order of their admission. -/
theorem announcements_mirror_storage (fair : Fair initial s) :
    (∀ ops : List Operation,
      let run := steps s ops []
      let h : History := run.flatMap Step.calls
      (inTurn ops).converse s [] = (run.map Step.outcome, h) ∧
      run.map (fun x => x.outcome.operation) = ops ∧
      h.events = run.flatMap (fun x => x.calls.events) ∧
      (∀ x ∈ run, x.Announces) ∧
      ∀ x ∈ run.getLast?, ∀ snap, .changed snap ∈ x.calls.events →
        (∃ text ∈ h.stored initial, (Document.decode? text).isSome = true) →
        ∀ text, s h .get = .ok text →
          (outcome .snapshot).converse s h
            = (⟨.snapshot, .ok snap⟩, h ++ [⟨.get, .ok text⟩])) ∧
    ∀ moves : List (Gate.Move Operation), ∃ calls : List (String × Operation),
      let desk := Gate.Desk.empty.run s (moves.map (Gate.Move.map outcome))
      let announced := (steps s (calls.map Prod.snd) []).flatMap fun x => x.calls.events
      desk.admitted = calls.map waiting ∧ History.events desk.history <+: announced ∧
        (desk.gate.running = none → History.events desk.history = announced) := by
  refine ⟨fun ops => ?_, events_of_schedule s⟩
  intro run h
  refine ⟨converse_inTurn_eq_steps s ops [], operations_of_steps s ops [], events_flatMap run,
    announces_steps fair ops [], fun x hx snap hmem hdecodes text hget => ?_⟩
  rcases List.eq_nil_or_concat ops with rfl | ⟨before, op, rfl⟩
  · cases hx
  · have hrun : run =
        steps s before [] ++ [op.step s ((steps s before []).flatMap Step.calls)] := by
      show steps s (before.concat op) [] = _
      rw [List.concat_eq_append, steps_append]
      rfl
    have hh : h = (steps s before []).flatMap Step.calls
        ++ (op.step s ((steps s before []).flatMap Step.calls)).calls := by
      show run.flatMap Step.calls = _
      rw [hrun, List.flatMap_append, List.flatMap_singleton]
    rw [hrun, List.getLast?_concat] at hx
    cases hx
    rw [hh] at hdecodes hget ⊢
    exact converse_snapshot_of_announced fair _ op hmem hdecodes hget

/-- The theorem for a failure and a profile that is then saved in an empty storage. -/
theorem announcements_mirror_storage_ordinary :
    let s := ordinary none;
    let ops : List Operation := [.save "" .empty, .save "a" .empty];
    let h : History := (steps s ops []).flatMap Step.calls;
    let snap : Snapshot :=
      ⟨"default", [⟨"a", "ii", none⟩, ⟨"default", "i", none⟩], .empty⟩
    Fair none s ∧ h.events = [.changed snap] ∧
      (outcome .snapshot).converse s h
        = (⟨.snapshot, .ok snap⟩, h ++ [⟨.get, .ok (h.stored none)⟩]) := by
  intro s ops h snap
  obtain ⟨-, -, hevents, -, hsnapshot⟩ := (announcements_mirror_storage (fair_ordinary none)).1 ops
  have hsteps : (steps s ops []).map (fun x => History.events x.calls)
      = [[], [.changed snap]] := by decide +kernel
  have hlast : (steps s ops []).getLast?.map (fun x => History.events x.calls)
      = some [.changed snap] := by
    rw [← List.getLast?_map, hsteps]
    rfl
  obtain ⟨x, hx, hannounced⟩ := Option.map_eq_some_iff.mp hlast
  have hmem : .changed snap ∈ History.events x.calls := by
    rw [hannounced]
    exact List.mem_singleton_self _
  let doc : Document := { Document.new "i" with
    profiles := (Document.new "i").profiles.insert "a"
      ⟨"ii", SortedMap.empty.insert SettingName.rateLimitSeconds (.integer 5)⟩ }
  -- by `rfl` both texts are compared as documents; neither is ever printed
  have hstored : h.stored none = some doc.encode := rfl
  have hvalues : doc.ValuesAre fun v => v.reread? = some v :=
    (Document.soundWith_new (by decide : "i" ≠ "")).values.insert_profile
      (SettingMap.ValuesAre.insert (fun _ _ hv => nomatch hv) rfl)
  have hdecode := Document.decode?_encode_eq_self hvalues
  have hget (h : History) : s h .get = .ok (h.stored none) := rfl
  refine ⟨fair_ordinary none, ?_, hsnapshot x hx snap hmem ⟨doc.encode, hstored, ?_⟩ _ (hget h)⟩
  · rw [hevents, List.flatMap_def, hsteps]
    rfl
  · rw [hdecode]
    rfl

end Operation

end SettingProfiles
