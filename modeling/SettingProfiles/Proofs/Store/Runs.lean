/-
SettingProfiles.Proofs.Store.Runs — operations one after the other.

A run is a sequence of operations against surroundings that may do whatever a
storage, a place of old settings and a source of ids can do. Here is what holds
of every run, and surroundings that do nothing out of the ordinary.

  §1 An ordinary storage — surroundings in which nothing goes wrong.
  §2 Runs                — `Operation.inTurn`.
  §3 Steps               — a run taken apart into its operations.
  §4 Run facts           — what each operation leaves behind holds after all of
                           them.
-/
import SettingProfiles.Proofs.Store.Operations

namespace SettingProfiles

open History (StoredIs WrittenAre)

/-! ## §1 An ordinary storage -/

/-- An id that is longer than all that are in use. -/
def longerId : List String → String
  | [] => "i"
  | id :: inUse => id ++ longerId inUse

theorem longerId_ne (inUse : List String) : longerId inUse ≠ "" := by
  induction inUse with
  | nil => decide
  | cons id inUse ih => simp [longerId, ih]

theorem length_lt_longerId {id : String} {inUse : List String} (h : id ∈ inUse) :
    id.length < (longerId inUse).length := by
  induction inUse with
  | nil => cases h
  | cons first inUse ih =>
    have happend : (longerId (first :: inUse)).length = first.length + (longerId inUse).length :=
      String.length_append _ _
    have hpos : 0 < (longerId inUse).length :=
      Nat.pos_of_ne_zero fun h => longerId_ne inUse (String.length_eq_zero_iff.mp h)
    rcases List.mem_cons.mp h with rfl | h
    · omega
    · have := ih h
      omega

theorem longerId_not_mem (inUse : List String) : longerId inUse ∉ inUse := fun h =>
  absurd (length_lt_longerId h) (Nat.lt_irrefl _)

/-- Surroundings in which nothing goes wrong: the storage keeps what it is told, and
there are no old settings. -/
def ordinary (initial : Option String) : Surroundings Effect Effect.Answer :=
  fun (h : History) q =>
    match q with
    | .get => .ok (h.stored initial)
    | .set _ => .ok ()
    | .delete => .ok ()
    | .legacy _ => .ok none
    | .freshId inUse => longerId inUse
    | .publish _ => ()

theorem fair_ordinary (initial : Option String) : Fair initial (ordinary initial) where
  get_eq h text hget := by
    cases hget
    rfl
  freshId_eq h inUse := by
    refine ⟨[longerId inUse], [], by simpa using (longerId_ne inUse).symm, ?_⟩
    show Document.freshId? inUse [longerId inUse] = some (longerId inUse, [])
    simp [Document.freshId?, longerId_not_mem]

/-! ## §2 Runs -/

/-- An operation and what it came to. -/
structure Operation.Outcome where
  operation : Operation
  result : Except OperationError operation.Result

namespace Operation

/-- The operation as a program that says what it came to. -/
def outcome (op : Operation) : Program Effect Effect.Answer Outcome := do
  return ⟨op, ← op.program⟩

/-- The operations as one program, one after the other. -/
def inTurn (ops : List Operation) : Program Effect Effect.Answer (List Outcome) :=
  ops.mapM outcome

variable {s : Surroundings Effect Effect.Answer} {initial : Option String}
  {good : Setting → Prop} {h : History}

theorem inTurn_append (ops ops' : List Operation) :
    inTurn (ops ++ ops') = (do return (← inTurn ops) ++ (← inTurn ops')) := by
  simp [inTurn, List.mapM_append]

theorem inTurn_singleton (op : Operation) : inTurn [op] = (do return [← op.outcome]) := by
  simp [inTurn]

/-- One operation more. -/
theorem converse_inTurn_snoc (s : Surroundings Effect Effect.Answer) (h : History)
    (ops : List Operation) (op : Operation) :
    (inTurn (ops ++ [op])).converse s h =
      (((inTurn ops).converse s h).1
          ++ [(op.outcome.converse s ((inTurn ops).converse s h).2).1],
        (op.outcome.converse s ((inTurn ops).converse s h).2).2) := by
  rw [inTurn_append, inTurn_singleton]
  simp only [bind_assoc, pure_bind, Program.converse_bind]
  rfl

/-- The first operation, and then the others. -/
theorem converse_inTurn_cons (op : Operation) (ops : List Operation)
    (s : Surroundings Effect Effect.Answer) (h : History) :
    (inTurn (op :: ops)).converse s h =
      let first := op.outcome.converse s h
      let later := (inTurn ops).converse s first.2
      (first.1 :: later.1, later.2) := by
  unfold inTurn
  rw [List.mapM_cons, Program.converse_bind, Program.converse_bind]
  rfl

/-! ## §3 Steps -/

/-- An operation of a run: what it came to, and the calls that it made. -/
structure Step where
  outcome : Outcome
  calls : History

/-- The operation as a step after a history. -/
def step (s : Surroundings Effect Effect.Answer) (h : History) (op : Operation) : Step :=
  ⟨(op.outcome.converse (s.after h) []).1, (op.outcome.converse (s.after h) []).2⟩

/-- The steps of operations one after the other. -/
def steps (s : Surroundings Effect Effect.Answer) : List Operation → History → List Step
  | [], _ => []
  | op :: ops, h => op.step s h :: steps s ops (h ++ (op.step s h).calls)

theorem converse_outcome_eq_step (s : Surroundings Effect Effect.Answer) (h : History)
    (op : Operation) :
    op.outcome.converse s h = ((op.step s h).outcome, h ++ (op.step s h).calls) :=
  Program.converse_eq_after s op.outcome h

@[simp] theorem operation_step (s : Surroundings Effect Effect.Answer) (h : History)
    (op : Operation) : (op.step s h).outcome.operation = op := by
  unfold step outcome
  rw [Program.converse_bind]
  rfl

/-- A run is its steps. -/
theorem converse_inTurn_eq_steps (s : Surroundings Effect Effect.Answer) (ops : List Operation)
    (h : History) :
    (inTurn ops).converse s h
      = ((steps s ops h).map Step.outcome, h ++ (steps s ops h).flatMap Step.calls) := by
  induction ops generalizing h with
  | nil =>
    show ([], h) = ([], h ++ [])
    rw [List.append_nil]
  | cons op ops ih =>
    rw [converse_inTurn_cons, converse_outcome_eq_step]
    simp only [ih, steps, List.map_cons, List.flatMap_cons, List.append_assoc]

theorem steps_append (s : Surroundings Effect Effect.Answer) (ops ops' : List Operation)
    (h : History) :
    steps s (ops ++ ops') h
      = steps s ops h ++ steps s ops' (h ++ (steps s ops h).flatMap Step.calls) := by
  induction ops generalizing h with
  | nil => simp [steps]
  | cons op ops ih => simp [steps, ih]

theorem events_flatMap (run : List Step) :
    History.events (run.flatMap Step.calls) = run.flatMap fun x => x.calls.events := by
  induction run with
  | nil => rfl
  | cons x run ih => rw [List.flatMap_cons, List.flatMap_cons, History.events_append, ih]

theorem operations_of_steps (s : Surroundings Effect Effect.Answer) (ops : List Operation)
    (h : History) : (steps s ops h).map (fun x => x.outcome.operation) = ops := by
  induction ops generalizing h with
  | nil => rfl
  | cons op ops ih =>
    rw [steps, List.map_cons, ih, operation_step]

/-! ## §4 Run facts -/

/-- A failure of an operation is labelled with it. -/
theorem ensures_outcome {op : Operation} {ok : op.Result → History → Prop}
    {err : StoreError → History → Prop} (hop : op.body.Ensures s h ok err) :
    op.outcome.Ensures s h fun o h' =>
      (∃ r, o = ⟨op, .ok r⟩ ∧ ok r h') ∨ (∃ e, o = ⟨op, .error ⟨op, e⟩⟩ ∧ err e h') := by
  unfold outcome program
  rw [Program.ensures_bind, Program.ensures_bind]
  refine Program.Ensures.mono hop fun r h' hr => ?_
  cases r with
  | ok r => exact Or.inl ⟨r, rfl, hr⟩
  | error e => exact Or.inr ⟨e, rfl, hr⟩

theorem step_of_body {op : Operation} {ok : op.Result → History → Prop}
    {err : StoreError → History → Prop} (hop : op.body.Ensures (s.after h) [] ok err) :
    (∃ r, (op.step s h).outcome = ⟨op, .ok r⟩ ∧ ok r (op.step s h).calls) ∨
      ∃ e, (op.step s h).outcome = ⟨op, .error ⟨op, e⟩⟩ ∧ err e (op.step s h).calls :=
  ensures_outcome hop

/-- The first operation, and then the others. -/
theorem ensures_inTurn_cons {op : Operation} {ops : List Operation}
    {post : List Outcome → History → Prop} :
    (inTurn (op :: ops)).Ensures s h post ↔
      op.outcome.Ensures s h fun o h' =>
        (inTurn ops).Ensures s h' fun outcomes h'' => post (o :: outcomes) h'' := by
  unfold inTurn
  rw [List.mapM_cons, Program.ensures_bind]
  simp only [Program.ensures_bind]
  rfl

/-- Everything that is stored in a run is sound. -/
theorem ensures_inTurn (fair : Fair initial s) (lasting : Setting.Lasting good)
    {ops : List Operation} (hops : ∀ op ∈ ops, op.ValuesAre good) (hw : WrittenAre good h) :
    (inTurn ops).Ensures s h fun _ h' => WrittenAre good h' := by
  induction ops generalizing h with
  | nil => exact hw
  | cons op ops ih =>
    rw [ensures_inTurn_cons]
    refine (ensures_outcome (ensures_body fair lasting op (hops op (by simp)) hw)).mono ?_
    intro o h' ho
    have hw' : WrittenAre good h' := by
      obtain ⟨_, _, hw', -⟩ | ⟨_, _, hw', -⟩ := ho <;> exact hw'
    exact ih (fun op hop => hops op (List.mem_cons_of_mem _ hop)) hw'

/-- **The store keeps its documents sound.** In every run, whatever was stored
before, whatever the operations are given and whatever goes wrong: each text that
is handed over to be stored is that of a document with a profile, without an empty
name, with a current profile, and with ids that are non-empty and all different.
After an operation that returns, unless it is `reset`, the stored text is that of
such a document, in which moreover every upgrade is recorded. -/
theorem inTurn_keeps_documents_sound (fair : Fair initial s) (ops : List Operation) :
    (inTurn ops).Ensures s [] fun outcomes (h : History) =>
      (∀ text ∈ h.written, ∃ doc : Document, doc.Sound ∧ text = doc.encode) ∧
      ∀ o ∈ outcomes.getLast?, o.operation ≠ .reset → o.result.isOk →
        ∃ doc : Document, doc.Sound ∧ doc.UpToDate ∧ StoredIs initial h doc := by
  rcases List.eq_nil_or_concat ops with rfl | ⟨before, op, rfl⟩
  · show (Program.done [] : Program Effect Effect.Answer (List Outcome)).Ensures s [] _
    rw [Program.ensures_done]
    exact ⟨by simp [History.written], by simp⟩
  · rw [List.concat_eq_append, inTurn_append, inTurn_singleton, Program.ensures_bind]
    refine Program.Ensures.mono
      (ensures_inTurn fair Setting.lasting_true (fun op _ => op.valuesAre_true) (.nil _)) ?_
    intro outcomes h hw
    simp only [bind_assoc, pure_bind]
    rw [Program.ensures_bind]
    have hbody := ensures_body fair Setting.lasting_true op op.valuesAre_true hw
    refine (ensures_outcome hbody).mono ?_
    intro o h' ho
    rw [Program.pure_eq_done, Program.ensures_done]
    rw [List.getLast?_append]
    obtain ⟨r, rfl, hw', hsettled⟩ | ⟨e, rfl, hw', -⟩ := ho
    · refine ⟨fun text htext => ?_, ?_⟩
      · obtain ⟨doc, hdoc, heq⟩ := hw' text htext
        exact ⟨doc, hdoc.toSound, heq⟩
      · rintro o ⟨⟩ hop -
        obtain ⟨doc, hdoc⟩ := hsettled hop
        exact ⟨doc, hdoc.sound.toSound, hdoc.upToDate, hdoc.stored⟩
    · refine ⟨fun text htext => ?_, ?_⟩
      · obtain ⟨doc, hdoc, heq⟩ := hw' text htext
        exact ⟨doc, hdoc.toSound, heq⟩
      · rintro o ⟨⟩ - hok
        cases hok

/-- The theorem for a storage that holds a text that is not that of a document. -/
theorem inTurn_keeps_documents_sound_ordinary :
    Fair (some "x") (ordinary (some "x")) ∧
      (inTurn [.list, .reset, .save "a" .empty]).Ensures (ordinary (some "x")) []
        fun outcomes (h : History) =>
          (∀ text ∈ h.written, ∃ doc : Document, doc.Sound ∧ text = doc.encode) ∧
          ∀ o ∈ outcomes.getLast?, o.operation ≠ .reset → o.result.isOk →
            ∃ doc : Document, doc.Sound ∧ doc.UpToDate ∧ StoredIs (some "x") h doc :=
  ⟨fair_ordinary _, inTurn_keeps_documents_sound (fair_ordinary _) _⟩

end Operation

end SettingProfiles
