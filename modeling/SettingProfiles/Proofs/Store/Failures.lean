/-
SettingProfiles.Proofs.Store.Failures — what a failed operation leaves behind.

An operation first reads the stored document, which may store a new, repaired or
upgraded one; what it does afterwards is to look around and to store its own
change, the last thing that can go wrong. So whatever it fails with, the stored
text is the one that reading left, and nothing has been announced.

  §1 Reading    — which operations read, and the history after that.
  §2 `Unchanged` — the same stored text and the same events.
  §3 Operations — `ensures_body_unchanged`.
  §4 Failed operations
-/
import SettingProfiles.Proofs.Store.FailStop

namespace SettingProfiles

open History (OnlyLooks)

variable {s : Surroundings Effect Effect.Answer} {h h' : History} {doc : Document}

/-! ## §1 Reading -/

namespace Operation

/-- The operation begins by reading the stored document. -/
def reads : Operation → Bool
  | .save name _ => name ≠ ""
  | .importDocument _ | .reset => false
  | _ => true

/-- The history after the operation has read the stored document. -/
def afterReading (op : Operation) (s : Surroundings Effect Effect.Answer) (h : History) : History :=
  if op.reads then (Procedure.read.run.converse s h).2 else h

end Operation

/-! ## §2 `Unchanged` -/

namespace History

/-- The stored text is the same, and nothing more has been announced. -/
structure Unchanged (h h' : History) : Prop where
  stored_eq : ∀ initial, h'.stored initial = h.stored initial
  events_eq : h'.events = h.events

theorem Unchanged.refl (h : History) : Unchanged h h := ⟨fun _ => rfl, rfl⟩

theorem Unchanged.trans {h'' : History} (hh : Unchanged h h') (hh' : Unchanged h' h'') :
    Unchanged h h'' :=
  ⟨fun initial => (hh'.stored_eq initial).trans (hh.stored_eq initial),
    hh'.events_eq.trans hh.events_eq⟩

theorem OnlyLooks.unchanged (hh : OnlyLooks h h') : Unchanged h h' :=
  ⟨hh.stored_eq, hh.events_eq⟩

end History

open History (Unchanged)

namespace Procedure

variable {α β : Type}

theorem FailStop.onlyLooks {p : Procedure α} (hp : p.FailStop Effect.isLook)
    (s : Surroundings Effect Effect.Answer) (h : History) :
    p.Ensures s h (fun _ h' => OnlyLooks h h') (fun _ h' => OnlyLooks h h') := by
  have hlooks : OnlyLooks h (p.run.converse s h).2 := Program.FailStop.extends_of_kind hp h
  unfold Ensures Program.Ensures
  cases (p.run.converse s h).1 <;> exact hlooks

/-- Without announcements the events stay the same. -/
theorem FailStop.events_eq {p : Procedure α} (hp : p.FailStop Effect.isSilent)
    (s : Surroundings Effect Effect.Answer) (h : History) :
    History.events (p.run.converse s h).2 = History.events h := by
  obtain ⟨more, hmore, hsilent⟩ := Program.FailStop.extends_of_kind (s := s) hp h
  have : History.events more = [] := by
    refine List.filterMap_eq_nil_iff.mpr fun x hx => ?_
    have hx := hsilent x hx
    cases hq : x.question <;> simp_all [Effect.event?, Effect.isSilent]
  rw [hmore, History.events_append, this, List.append_nil]

/-! ## §3 Operations -/

/-- A failure leaves everything as it is. -/
def KeepsOnError (p : Procedure α) (s : Surroundings Effect Effect.Answer) (h : History) : Prop :=
  p.Ensures s h (fun _ _ => True) fun _ h' => Unchanged h h'

theorem keepsOnError_commit : (commit doc).KeepsOnError s h := by
  unfold KeepsOnError commit
  rw [ensures_bind, ensures_persist]
  cases s h (.set doc.encode) with
  | ok _ => trivial
  | error f =>
    refine ⟨fun initial => ?_, ?_⟩
    · rw [History.stored_append]
      rfl
    · rw [History.events_append]
      simp [History.events, Effect.event?]

/-- What comes before only looks. -/
theorem KeepsOnError.bind {p : Procedure α} {f : α → Procedure β} (hp : p.FailStop Effect.isLook)
    (hf : ∀ a h', (f a).KeepsOnError s h') : (p >>= f).KeepsOnError s h := by
  unfold KeepsOnError
  rw [ensures_bind]
  refine (hp.onlyLooks s h).mono (fun a h' hlooks => ?_) fun _ _ hlooks => hlooks.unchanged
  exact (hf a h').mono (fun _ _ _ => trivial) fun _ _ hsame => hlooks.unchanged.trans hsame

theorem KeepsOnError.map {p : Procedure α} {f : α → β} (hp : p.KeepsOnError s h) :
    (p >>= fun a => pure (f a)).KeepsOnError s h := by
  unfold KeepsOnError
  rw [ensures_bind]
  exact Ensures.mono hp (fun _ _ _ => trivial) fun _ _ hsame => hsame

theorem KeepsOnError.pure (a : α) : (pure a : Procedure α).KeepsOnError s h := trivial

theorem KeepsOnError.ofDocument (r : Except DocumentError α) :
    (ofDocument r).KeepsOnError s h := by
  cases r with
  | ok a => trivial
  | error e => exact Unchanged.refl h

theorem keepsOnError_setCurrent (name : String) :
    (Procedure.ofDocument (doc.setCurrent name) >>= commit).KeepsOnError s h :=
  .bind (failStop_ofDocument _) fun _ _ => keepsOnError_commit

theorem keepsOnError_activate (name : String) : (activate doc name).KeepsOnError s h := by
  unfold activate
  refine .bind (failStop_ofDocument _) fun p h' => ?_
  rw [← bind_assoc]
  exact .map (keepsOnError_setCurrent name)

/-- What goes wrong in or after reading leaves everything as reading left it. -/
theorem ensures_read_unchanged {f : Document → Procedure β}
    (hf : ∀ doc h', (f doc).KeepsOnError s h') :
    (read >>= f).Ensures s h (fun _ _ => True)
      fun _ h' => Unchanged (read.run.converse s h).2 h' := by
  rw [ensures_bind]
  unfold Ensures Program.Ensures
  cases (read.run.converse s h).1 with
  | ok doc => exact hf doc _
  | error e => exact .refl _

end Procedure

namespace Operation

open Procedure

theorem ensures_body_unchanged (op : Operation) :
    op.body.Ensures s h (fun _ _ => True) fun _ h' => Unchanged (op.afterReading s h) h' := by
  cases op with
  | reset =>
    unfold body
    rw [ensures_bind, ensures_delete]
    cases s h .delete with
    | ok _ => trivial
    | error f =>
      refine ⟨fun initial => ?_, ?_⟩
      · rw [History.stored_append]
        rfl
      · rw [History.events_append]
        simp [History.events, Effect.event?, afterReading, reads]
  | importDocument doc =>
    exact KeepsOnError.bind (failStop_ofDocument _) fun _ _ =>
      .bind (failStop_upgradeDetached doc).look fun _ _ => .map keepsOnError_commit
  | save name settings =>
    unfold body Procedure.save afterReading reads
    by_cases hname : name = ""
    · simp only [hname, ne_eq, not_true_eq_false, decide_false]
      exact Unchanged.refl h
    · simp only [hname, ne_eq, not_false_eq_true, decide_true, if_true]
      exact ensures_read_unchanged fun doc _ =>
        .bind (failStop_withRateLimit doc name settings).look fun full _ =>
        .bind (failStop_upsert doc name full).look fun r _ =>
        .bind (failStop_ofDocument r) fun _ _ =>
        .map keepsOnError_commit
  | load name => exact ensures_read_unchanged fun doc _ => .map (keepsOnError_activate name)
  | loadById id =>
    refine ensures_read_unchanged fun doc h' => ?_
    cases doc.profileById? id with
    | none => exact Unchanged.refl h'
    | some found => exact .map (keepsOnError_activate found.1)
  | profile name => exact ensures_read_unchanged fun doc _ => .ofDocument _
  | delete name =>
    exact ensures_read_unchanged fun doc _ => .bind (failStop_ofDocument _) fun _ _ =>
      .map keepsOnError_commit
  | setCurrent name => exact ensures_read_unchanged fun doc _ => keepsOnError_setCurrent name
  | bindMode mode id => exact ensures_read_unchanged fun doc _ => keepsOnError_commit
  | exportDocument =>
    show Procedure.read.Ensures s h _ _
    rw [← bind_pure Procedure.read]
    exact ensures_read_unchanged fun doc _ => .pure doc
  | prepare | list | current | contains | modeBinding | snapshot =>
    exact ensures_read_unchanged fun doc _ => .pure _

/-- What reading brings about, even if it fails, holds after the operation has read. -/
theorem afterReading_of_read {P : History → Prop} (op : Operation) (hh : P h)
    (hread : Procedure.read.Ensures s h (fun _ => P) fun _ => P) : P (op.afterReading s h) := by
  unfold afterReading
  split
  · exact hread.always
  · exact hh

/-- Reading announces nothing. -/
theorem events_afterReading (op : Operation) (s : Surroundings Effect Effect.Answer) (h : History) :
    (op.afterReading s h).events = h.events := by
  unfold afterReading
  split
  · exact failStop_read.events_eq s h
  · rfl

end Operation

/-- Reading a document that lacks nothing is one `get`. -/
theorem Procedure.ensures_read_lacking_nothing {text : String}
    (hdecode : Document.decode? text = some doc) (hnormal : doc.isNormal = true)
    (hupToDate : doc.UpToDate) (hget : ∀ t, s h .get = .ok t → t = some text) :
    read.Ensures s h (fun d h' => d = doc ∧ h' = h ++ [⟨.get, s h .get⟩])
      fun _ h' => h' = h ++ [⟨.get, s h .get⟩] := by
  cases hs : s h .get with
  | error f =>
    rw [ensures_read_fault hs]
  | ok t =>
    cases hget t hs
    rw [ensures_read_text hs, hdecode]
    dsimp only
    cases doc.validate with
    | error e => rfl
    | ok _ =>
      rw [ensureUpgraded_eq_pure hnormal hupToDate]
      exact ⟨rfl, rfl⟩

namespace Operation

open Procedure

/-- Reading a document that lacks nothing leaves the stored text as it is. -/
theorem stored_afterReading {text : String} (op : Operation)
    (hdecode : Document.decode? text = some doc) (hnormal : doc.isNormal = true)
    (hupToDate : doc.UpToDate) (hget : ∀ t, s h .get = .ok t → t = some text)
    (initial : Option String) : (op.afterReading s h).stored initial = h.stored initial := by
  have hlook : OnlyLooks h (h ++ [⟨.get, s h .get⟩]) := (OnlyLooks.refl h).snoc rfl
  have hread := ensures_read_lacking_nothing hdecode hnormal hupToDate hget
  refine op.afterReading_of_read (P := fun h' => h'.stored initial = h.stored initial) rfl
    (hread.mono ?_ ?_)
  · rintro _ _ ⟨-, rfl⟩
    exact hlook.stored_eq initial
  · rintro _ _ rfl
    exact hlook.stored_eq initial

/-! ## §4 Failed operations -/

/-- The operation converses like its body, and labels the failure. -/
theorem converse_program (op : Operation) (s : Surroundings Effect Effect.Answer) (h : History) :
    op.program.converse s h =
      ((op.body.run.converse s h).1.mapError fun e => ⟨op, e⟩, (op.body.run.converse s h).2) := by
  unfold program
  rw [Program.converse_bind]
  cases (op.body.run.converse s h).1 <;> rfl

/-- A step is what the body comes to, and the failure is labelled. -/
theorem step_of_converse {op : Operation} {r : Except StoreError op.Result} {calls : History}
    (hbody : op.body.run.converse (s.after h) [] = (r, calls)) :
    op.step s h = ⟨⟨op, r.mapError (⟨op, ·⟩)⟩, calls⟩ := by
  unfold step outcome
  rw [Program.converse_bind, converse_program, hbody]
  rfl

/-- An operation that fails announces nothing, and the stored text is the one that
reading left. -/
theorem unchanged_of_error {op : Operation} {e : OperationError}
    (he : (op.program.converse s h).1 = .error e) :
    e.operation = op ∧ Unchanged (op.afterReading s h) (op.program.converse s h).2 := by
  have hbody := ensures_body_unchanged (s := s) (h := h) op
  unfold Ensures Program.Ensures at hbody
  rw [converse_program] at he ⊢
  generalize op.body.run.converse s h = r at he hbody ⊢
  obtain ⟨r, h'⟩ := r
  cases r with
  | ok r => cases he
  | error cause =>
    cases he
    exact ⟨rfl, hbody⟩

/-- The calls that a failing run makes, and what it fails with. -/
theorem converse_program_failing {n : Nat} (f : Fault) (op : Operation)
    (hfree : History.FaultFree (op.program.converse s []).2)
    (hn : n < (History.storageCalls (op.program.converse s []).2).length) :
    ∃ (before after : History) (x : Exchange Effect Effect.Answer),
      (op.program.converse s []).2 = before ++ x :: after ∧ x.question.isStorage = true ∧
      before.storageCalls.length = n ∧
      op.program.converse (s.failing n f) [] =
        (.error ⟨op, .ofFault f⟩, before ++ [⟨x.question, x.question.faulty f x.answer⟩]) := by
  simp only [converse_program] at hfree hn ⊢
  obtain ⟨before, after, x, hrun, hx, hcount, hfailing⟩ :=
    Program.FailStop.converse_failing (f := f) (failStop_body op) hfree (Nat.zero_le n) hn
  refine ⟨before, after, x, hrun, hx, hcount, ?_⟩
  rw [hfailing]
  rfl

/-- **A failed operation has stopped at the failure and left nothing half done.** Of
the runs of an operation against surroundings `s`:

If no storage call goes wrong, but the one with number `n` does when `s` fails
there, then the failing run makes the same calls with the same answers up to that
one and no call after it, announces nothing, and fails with what went wrong,
labelled with the operation.

If it fails, whatever with, nothing has been announced, and the stored text is the
one that reading the document left.

If moreover the stored text was that of a document that needs neither repair nor
upgrade, it still is the stored text. -/
theorem failure_is_stop_and_keeps_document (op : Operation)
    (s : Surroundings Effect Effect.Answer) :
    (∀ (n : Nat) (f : Fault), History.FaultFree (op.program.converse s []).2 →
      n < (History.storageCalls (op.program.converse s []).2).length →
      ∃ (before after : History) (x : Exchange Effect Effect.Answer),
        (op.program.converse s []).2 = before ++ x :: after ∧
        op.program.converse (s.failing n f) [] =
          (.error ⟨op, .ofFault f⟩, before ++ [⟨x.question, x.question.faulty f x.answer⟩]) ∧
        x.question.fault? (x.question.faulty f x.answer) = some f ∧
        History.storageCalls (before ++ [⟨x.question, x.question.faulty f x.answer⟩])
          = (History.storageCalls (op.program.converse s []).2).take (n + 1) ∧
        History.events (before ++ [⟨x.question, x.question.faulty f x.answer⟩]) = []) ∧
    (∀ e, (op.program.converse s []).1 = .error e →
      e.operation = op ∧ History.events (op.program.converse s []).2 = [] ∧
      ∀ initial, History.stored initial (op.program.converse s []).2
        = History.stored initial (op.afterReading s [])) ∧
    (∀ e text doc, (op.program.converse s []).1 = .error e →
      (∀ t, s [] .get = .ok t → t = some text) → Document.decode? text = some doc →
      doc.isNormal = true → doc.UpToDate →
      History.stored (some text) (op.program.converse s []).2 = some text) := by
  refine ⟨fun n f hfree hn => ?_, fun e he => ?_,
    fun e text doc he hget hdecode hnormal hflags => ?_⟩
  · obtain ⟨before, after, x, hrun, hx, hcount, hfailing⟩ := converse_program_failing f op hfree hn
    refine ⟨before, after, x, hrun, hfailing, Effect.fault?_faulty hx f x.answer, ?_, ?_⟩
    · have hcalls : ∀ a more, History.storageCalls (⟨x.question, a⟩ :: more)
          = x.question :: History.storageCalls more := fun a more => by
        simp [History.storageCalls, hx]
      rw [hrun, History.storageCalls_append, History.storageCalls_append, hcalls, hcalls, ← hcount,
        List.take_length_add_append]
      rfl
    · have hstopped := (unchanged_of_error (congrArg Prod.fst hfailing)).2.events_eq
      rw [events_afterReading, hfailing] at hstopped
      exact hstopped
  · obtain ⟨hop, hsame⟩ := unchanged_of_error he
    exact ⟨hop, hsame.events_eq.trans (events_afterReading op s []), hsame.stored_eq⟩
  · obtain ⟨-, hsame⟩ := unchanged_of_error he
    exact (hsame.stored_eq _).trans (stored_afterReading op hdecode hnormal hflags hget _)

end Operation

end SettingProfiles
