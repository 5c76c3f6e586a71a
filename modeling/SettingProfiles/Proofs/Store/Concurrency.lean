/-
SettingProfiles.Proofs.Store.Concurrency — no update is lost.

Many callers use the store at the same time. Between two calls of one operation
the others may enter, leave, be admitted or be told their results; calls may go
wrong, and callers may be gone before their operation is. For every such schedule
the calls that are made are those of the admitted operations, one operation after
the other, each alone and in full, and no operation whose caller stays gets lost in
the queue.
-/
import SettingProfiles.Proofs.Gate.Serial
import SettingProfiles.Proofs.Store.Runs

namespace SettingProfiles

namespace Operation

variable {s : Surroundings Effect Effect.Answer}

/-- A caller with an operation, as the gate sees them. -/
def waiting (call : String × Operation) : Waiting Effect Effect.Answer Outcome :=
  ⟨call.1, call.2.outcome⟩

/-- Operations one after the other, with and without their callers. -/
theorem converse_inTurn_waiting (calls : List (String × Operation)) (h : History) :
    (Gate.inTurn (calls.map waiting)).converse s h =
      ((calls.zip ((inTurn (calls.map Prod.snd)).converse s h).1).map fun x => ⟨x.1.1, x.2⟩,
        ((inTurn (calls.map Prod.snd)).converse s h).2) := by
  induction calls generalizing h with
  | nil => rfl
  | cons call calls ih =>
    simp only [Gate.inTurn, inTurn, List.map_cons, List.mapM_cons, Program.converse_bind,
      Program.pure_eq_done, Program.converse_done] at ih ⊢
    rw [ih]
    rfl

/-- **No update is lost.** Take any schedule of callers that enter with operations and
leave again, of admissions, of answers to single calls and of ends, and any
surroundings. The history of all calls begins like that of the admitted operations
executed one after the other, each alone and in full, in the order of their
admission; once nothing is running it is equal to it, so the stored text and the
events are the same, and each operation was told the same outcome at its end unless
its caller has left. What is running can always be brought to its end. A caller who
leaves before being admitted, and does not come again, is never admitted. No other
operation gets lost: the admitted ones and behind them the queued ones are some of
those that entered, in the order of arrival, and all that a caller enters with after
leaving for the last time, or at all if it never leaves, are among them. -/
theorem concurrent_operations_are_serial (s : Surroundings Effect Effect.Answer)
    (moves : List (Gate.Move Operation)) :
    ∃ calls queued : List (String × Operation),
      let desk := Gate.Desk.empty.run s (moves.map (Gate.Move.map outcome))
      let serial := (inTurn (calls.map Prod.snd)).converse s []
      desk.admitted = calls.map waiting ∧
      desk.gate.queue = queued.map waiting ∧
      (∀ call ∈ calls, .enter call.1 call.2 ∈ moves) ∧
      desk.history <+: serial.2 ∧
      (desk.gate.running = none →
        desk.history = serial.2 ∧
        List.Forall₂ (fun told (x : (String × Operation) × Outcome) =>
          told = some ⟨x.1.1, x.2⟩ ∨ told = none ∧ .leave x.1.1 ∈ moves)
          desk.told (calls.zip serial.1)) ∧
      (∃ n, let later := desk.run s (List.replicate n .proceed ++ [.finish])
        later.gate.running = none ∧ later.admitted = desk.admitted) ∧
      (∀ before after caller, moves = before ++ .leave caller :: after →
        (∀ op, .enter caller op ∉ after) →
        (∀ w ∈ (Gate.Desk.empty.run s (before.map (Gate.Move.map outcome))).admitted,
          w.caller ≠ caller) →
        ∀ call ∈ calls, call.1 ≠ caller) ∧
      (calls ++ queued).Sublist (Gate.entries moves) ∧
      ∀ before after caller, moves = before ++ after → .leave caller ∉ after →
        (Gate.entries after).filter (·.1 = caller)
          <:+ (calls ++ queued).filter (·.1 = caller) := by
  obtain ⟨calls, queued, hlines⟩ := Gate.Desk.exists_lines s outcome moves
  have hadmitted : (Gate.Desk.empty.run s (moves.map (Gate.Move.map outcome))).admitted
      = calls.map waiting := hlines.admitted_eq
  have hserial := Gate.Desk.serial_run s (moves.map (Gate.Move.map outcome))
  refine ⟨calls, queued, hadmitted, hlines.queue_eq, fun call hcall => ?_, ?_, ?_,
    Gate.Desk.exists_run_idle s _, ?_, hlines.entered, hlines.kept⟩
  · exact Gate.mem_entries.mp (hlines.entered.mem (List.mem_append_left queued hcall))
  · have hprefix := hserial.history_prefix
    rwa [hadmitted, converse_inTurn_waiting] at hprefix
  · intro hidle
    obtain ⟨hhistory, htold⟩ := hserial.of_idle hidle
    rw [hadmitted, converse_inTurn_waiting] at hhistory htold
    refine ⟨hhistory, ?_⟩
    unfold Gate.Told at htold
    rw [List.forall₂_map_right_iff] at htold
    refine htold.imp fun told x => ?_
    rintro (ht | ⟨hnone, hleft⟩)
    · exact Or.inl ht
    · refine Or.inr ⟨hnone, ?_⟩
      rcases Gate.Desk.mem_left_run hleft with hmem | hmem
      · cases hmem
      · exact Gate.mem_of_leave_mem_map hmem
  · rintro before after caller rfl hafter hbefore call hcall rfl
    have hgone : ∀ program, .enter call.1 program ∉ after.map (Gate.Move.map outcome) := by
      intro program hmem
      obtain ⟨op, hop, -⟩ := Gate.exists_of_enter_mem_map hmem
      exact hafter op hop
    have hnever := Gate.Desk.not_admitted_of_leave (s := s) hbefore hgone
    refine hnever (waiting call) ?_ rfl
    have hsame : (Gate.Desk.empty.run s (before.map (Gate.Move.map outcome))).run s
        (.leave call.1 :: after.map (Gate.Move.map outcome))
        = Gate.Desk.empty.run s
          ((before ++ .leave call.1 :: after).map (Gate.Move.map outcome)) := by
      unfold Gate.Desk.run
      rw [List.map_append, List.foldl_append]
      rfl
    rw [hsame, hadmitted]
    exact List.mem_map_of_mem hcall

end Operation

end SettingProfiles
