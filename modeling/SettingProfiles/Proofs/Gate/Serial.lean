/-
SettingProfiles.Proofs.Gate.Serial — behind a gate, programs run one after the
other.

Callers come and go, and the programs that they bring are asked on question by
question; between any two questions anything else may happen at the gate. Yet
the history of all questions is that of the admitted programs, each run alone
and in full, in the order of their admission. A move that the gate does not
allow at the moment changes nothing.

  §1 Desks      — a gate, the history, and what a move does to them.
  §2 `Serial`   — the invariant, and that every move keeps it.
  §3 Schedules  — `serial_run`, and what it means once nothing is running.
  §4 Leaving    — before and after admission.
  §5 Lines      — `exists_lines`: who entered and has not left is admitted or queued.
-/
import Mathlib.Data.List.Forall2
import SettingProfiles.Gate
import SettingProfiles.Proofs.Surroundings

namespace SettingProfiles

namespace Gate

variable {Q : Type} {A : Q → Type} {α : Type}

/-! ## §1 Desks -/

/-- What can happen at a gate, where callers bring an `R`. -/
inductive Move (R : Type) where
  | enter (caller : String) (request : R)
  | leave (caller : String)
  /-- The first of the queue is admitted. -/
  | admitNext
  /-- The running program's question is answered. -/
  | proceed
  /-- The running program has come to its end. -/
  | finish

/-- The same move, where callers bring something else. -/
def Move.map {R R' : Type} (f : R → R') : Move R → Move R'
  | enter caller request => enter caller (f request)
  | leave caller => leave caller
  | admitNext => admitNext
  | proceed => proceed
  | finish => finish

theorem mem_of_leave_mem_map {R R' : Type} {f : R → R'} {moves : List (Move R)} {caller : String}
    (h : .leave caller ∈ moves.map (Move.map f)) : .leave caller ∈ moves := by
  obtain ⟨move, hmove, heq⟩ := List.mem_map.mp h
  cases move <;> cases heq
  exact hmove

theorem exists_of_enter_mem_map {R R' : Type} {f : R → R'} {moves : List (Move R)}
    {caller : String} {request : R'} (h : .enter caller request ∈ moves.map (Move.map f)) :
    ∃ brought, .enter caller brought ∈ moves ∧ f brought = request := by
  obtain ⟨move, hmove, heq⟩ := List.mem_map.mp h
  cases move <;> cases heq
  exact ⟨_, hmove, rfl⟩

/-- Nothing is running when a caller is admitted, and it is the first of the queue. -/
theorem admit?_eq_some {g g' : Gate Q A α} (h : g.admit? = some g') :
    ∃ w rest, g.running = none ∧ g.queue = w :: rest ∧
      g' = ⟨rest, some ⟨w.caller, false, w.program⟩⟩ := by
  unfold admit? at h
  split at h
  · rename_i w rest hrunning hqueue
    cases h
    exact ⟨w, rest, hrunning, hqueue, rfl⟩
  · cases h

/-- Only the running program is asked on, by the answer to its question. -/
theorem proceed?_eq_some {answer : (q : Q) → Option (A q)} {g g' : Gate Q A α}
    (h : g.proceed? answer = some g') :
    ∃ caller abandoned q next a, g.running = some ⟨caller, abandoned, .ask q next⟩ ∧
      answer q = some a ∧ g' = { g with running := some ⟨caller, abandoned, next a⟩ } := by
  unfold proceed? at h
  split at h
  · rename_i caller abandoned q next hrunning
    obtain ⟨a, ha, rfl⟩ := Option.map_eq_some_iff.mp h
    exact ⟨caller, abandoned, q, next, a, hrunning, ha, rfl⟩
  · cases h

/-- Only a running program that is done ends, and its caller is told unless it has left. -/
theorem finish?_eq_some {g g' : Gate Q A α} {t : Option (Finished α)}
    (h : g.finish? = some (t, g')) :
    ∃ caller abandoned result, g.running = some ⟨caller, abandoned, .done result⟩ ∧
      t = (if abandoned then none else some ⟨caller, result⟩) ∧
      g' = { g with running := none } := by
  unfold finish? at h
  split at h
  · rename_i caller abandoned result hrunning
    cases h
    exact ⟨caller, abandoned, result, hrunning, rfl, rfl⟩
  · cases h

/-- The question of the running program. -/
def asking? (g : Gate Q A α) : Option Q :=
  match g.running with
  | some ⟨_, _, .ask q _⟩ => some q
  | _ => none

/-- A gate and all that has come of it: what was asked and answered, who was
admitted with which program, what was told at the end of each program, if its
caller was still there, and who has left. -/
structure Desk (Q : Type) (A : Q → Type) (α : Type) where
  gate : Gate Q A α
  history : List (Exchange Q A)
  admitted : List (Waiting Q A α)
  told : List (Option (Finished α))
  left : List String

namespace Desk

/-- Nobody has come yet. -/
def empty : Desk Q A α := ⟨.empty, [], [], [], []⟩

/-- A move, if the gate allows it; questions are answered by the surroundings. -/
def step (s : Surroundings Q A) (d : Desk Q A α) : Move (Program Q A α) → Desk Q A α
  | .enter caller program => { d with gate := d.gate.enter caller program }
  | .leave caller => { d with gate := d.gate.leave caller, left := d.left ++ [caller] }
  | .admitNext =>
    match d.gate.admit? with
    | some gate => { d with gate, admitted := d.admitted ++ d.gate.queue.head?.toList }
    | none => d
  | .proceed =>
    match d.gate.proceed? (fun q => some (s d.history q)) with
    | some gate =>
      { d with gate, history := d.history ++ d.gate.asking?.toList.map fun q => ⟨q, s d.history q⟩ }
    | none => d
  | .finish =>
    match d.gate.finish? with
    | some (told, gate) => { d with gate, told := d.told ++ [told] }
    | none => d

/-- One move after the other. -/
def run (s : Surroundings Q A) (d : Desk Q A α) (moves : List (Move (Program Q A α))) :
    Desk Q A α := moves.foldl (step s) d

/-! What the moves do that the gate may refuse. -/

theorem step_admitNext (s : Surroundings Q A) (d : Desk Q A α) :
    d.step s .admitNext = d ∨
      ∃ w rest, d.gate.running = none ∧ d.gate.queue = w :: rest ∧
        d.step s .admitNext = { d with
          gate := ⟨rest, some ⟨w.caller, false, w.program⟩⟩
          admitted := d.admitted ++ [w] } := by
  unfold step
  cases hgate : d.gate.admit? with
  | none => exact .inl rfl
  | some gate =>
    obtain ⟨w, rest, hnone, hqueue, rfl⟩ := admit?_eq_some hgate
    refine .inr ⟨w, rest, hnone, hqueue, ?_⟩
    rw [hqueue]
    rfl

theorem step_proceed (s : Surroundings Q A) (d : Desk Q A α) :
    d.step s .proceed = d ∨
      ∃ caller abandoned q next, d.gate.running = some ⟨caller, abandoned, .ask q next⟩ ∧
        d.step s .proceed = { d with
          gate := { d.gate with running := some ⟨caller, abandoned, next (s d.history q)⟩ }
          history := d.history ++ [⟨q, s d.history q⟩] } := by
  unfold step
  cases hgate : d.gate.proceed? (fun q => some (s d.history q)) with
  | none => exact .inl rfl
  | some gate =>
    obtain ⟨caller, abandoned, q, next, a, hask, ha, rfl⟩ := proceed?_eq_some hgate
    cases ha
    refine .inr ⟨caller, abandoned, q, next, hask, ?_⟩
    simp [asking?, hask]

theorem step_finish (s : Surroundings Q A) (d : Desk Q A α) :
    d.step s .finish = d ∨
      ∃ caller abandoned result, d.gate.running = some ⟨caller, abandoned, .done result⟩ ∧
        d.step s .finish = { d with
          gate := { d.gate with running := none }
          told := d.told ++ [if abandoned then none else some ⟨caller, result⟩] } := by
  unfold step
  cases hgate : d.gate.finish? with
  | none => exact .inl rfl
  | some told =>
    obtain ⟨t, gate⟩ := told
    obtain ⟨caller, abandoned, result, hdone, rfl, rfl⟩ := finish?_eq_some hgate
    exact .inr ⟨caller, abandoned, result, hdone, rfl⟩

end Desk

/-- The programs one after the other, with their callers' names on the results. -/
def inTurn (admitted : List (Waiting Q A α)) : Program Q A (List (Finished α)) :=
  admitted.mapM fun w => do return ⟨w.caller, ← w.program⟩

theorem converse_inTurn_append (s : Surroundings Q A) (ws : List (Waiting Q A α))
    (w : Waiting Q A α) (h : List (Exchange Q A)) :
    (inTurn (ws ++ [w])).converse s h =
      (((inTurn ws).converse s h).1 ++
          [⟨w.caller, (w.program.converse s ((inTurn ws).converse s h).2).1⟩],
        (w.program.converse s ((inTurn ws).converse s h).2).2) := by
  simp [inTurn, List.mapM_append, Program.converse_bind]

/-! ## §2 `Serial` -/

/-- What was told at the end of each program is its result, unless its caller has
left. -/
def Told (left : List String) : List (Option (Finished α)) → List (Finished α) → Prop :=
  List.Forall₂ fun t f => t = some f ∨ t = none ∧ f.caller ∈ left

theorem Told.mono {left left' : List String} {told : List (Option (Finished α))}
    {results : List (Finished α)} (h : Told left told results) (hleft : left ⊆ left') :
    Told left' told results :=
  List.Forall₂.imp (fun _ _ ht => ht.imp_right fun ⟨hnone, hmem⟩ => ⟨hnone, hleft hmem⟩) h

theorem Told.snoc {left : List String} {told : List (Option (Finished α))}
    {results : List (Finished α)} (h : Told left told results) {t : Option (Finished α)}
    {f : Finished α} (hlast : t = some f ∨ t = none ∧ f.caller ∈ left) :
    Told left (told ++ [t]) (results ++ [f]) :=
  List.rel_append h (.cons hlast .nil)

namespace Desk

variable {s : Surroundings Q A} {d : Desk Q A α}

/-- The history is that of the admitted programs, one after the other; of the last
of them only what it has asked so far, if it has not ended. -/
inductive Serial (s : Surroundings Q A) (d : Desk Q A α) : Prop where
  | idle (hrunning : d.gate.running = none)
      (hhistory : d.history = ((inTurn d.admitted).converse s []).2)
      (htold : Told d.left d.told ((inTurn d.admitted).converse s []).1) : Serial s d
  | busy {before : List (Waiting Q A α)} {w : Waiting Q A α} {abandoned : Bool}
      {rest : Program Q A α} (hrunning : d.gate.running = some ⟨w.caller, abandoned, rest⟩)
      (hadmitted : d.admitted = before ++ [w])
      (hleft : abandoned = true → w.caller ∈ d.left)
      (hrest : rest.converse s d.history = w.program.converse s ((inTurn before).converse s []).2)
      (htold : Told d.left d.told ((inTurn before).converse s []).1) : Serial s d

theorem serial_empty (s : Surroundings Q A) : Serial s (empty : Desk Q A α) :=
  .idle rfl rfl .nil

theorem Serial.enter (hd : Serial s d) (caller : String) (program : Program Q A α) :
    Serial s (d.step s (.enter caller program)) := by
  cases hd with
  | idle hrunning hhistory htold => exact .idle hrunning hhistory htold
  | busy hrunning hadmitted hleft hrest htold => exact .busy hrunning hadmitted hleft hrest htold

theorem Serial.leave (hd : Serial s d) (caller : String) :
    Serial s (d.step s (.leave caller)) := by
  have hsub : d.left ⊆ d.left ++ [caller] := List.subset_append_left _ _
  cases hd with
  | idle hrunning hhistory htold =>
    refine .idle ?_ hhistory (htold.mono hsub)
    simp [step, Gate.leave, hrunning]
  | @busy before w abandoned rest hrunning hadmitted hleft hrest htold =>
    have hrunning' : (d.step s (.leave caller)).gate.running
        = some ⟨w.caller, abandoned || w.caller = caller, rest⟩ := by
      simp [step, Gate.leave, hrunning]
    refine .busy hrunning' hadmitted (fun h => ?_) hrest (htold.mono hsub)
    · rcases Bool.or_eq_true _ _ |>.mp h with h | h
      · exact hsub (hleft h)
      · exact List.mem_append_right _ (List.mem_singleton.mpr (of_decide_eq_true h))

theorem Serial.admitNext (hd : Serial s d) : Serial s (d.step s .admitNext) := by
  obtain hsame | ⟨w, rest, hnone, -, hstep⟩ := step_admitNext s d
  · exact hsame.symm ▸ hd
  · rw [hstep]
    cases hd with
    | idle hrunning hhistory htold =>
      refine .busy rfl rfl (fun h => by cases h) ?_ htold
      exact congrArg (w.program.converse s) hhistory
    | busy hrunning => rw [hnone] at hrunning; cases hrunning

theorem Serial.proceed (hd : Serial s d) : Serial s (d.step s .proceed) := by
  obtain hsame | ⟨caller, abandoned, q, next, hask, hstep⟩ := step_proceed s d
  · exact hsame.symm ▸ hd
  · rw [hstep]
    cases hd with
    | idle hrunning => rw [hask] at hrunning; cases hrunning
    | busy hrunning hadmitted hleft hrest htold =>
      rw [hask] at hrunning
      cases hrunning
      refine .busy rfl hadmitted hleft ?_ htold
      rw [← hrest, Program.converse_ask]

theorem Serial.finish (hd : Serial s d) : Serial s (d.step s .finish) := by
  obtain hsame | ⟨caller, abandoned, result, hdone, hstep⟩ := step_finish s d
  · exact hsame.symm ▸ hd
  · rw [hstep]
    cases hd with
    | idle hrunning => rw [hdone] at hrunning; cases hrunning
    | @busy before w abandoned' rest hrunning hadmitted hleft hrest htold =>
      rw [hdone] at hrunning
      cases hrunning
      rw [Program.converse_done] at hrest
      have hserial := converse_inTurn_append s before w []
      rw [← hrest, ← hadmitted] at hserial
      refine .idle rfl (by rw [hserial]) ?_
      rw [hserial]
      refine htold.snoc ?_
      cases abandoned with
      | true => exact Or.inr ⟨rfl, hleft rfl⟩
      | false => exact Or.inl rfl

/-- Every move keeps the history serial. -/
theorem Serial.step (hd : Serial s d) (move : Move (Program Q A α)) : Serial s (d.step s move) := by
  cases move with
  | enter caller program => exact hd.enter caller program
  | leave caller => exact hd.leave caller
  | admitNext => exact hd.admitNext
  | proceed => exact hd.proceed
  | finish => exact hd.finish

/-! ## §3 Schedules -/

theorem Serial.run (hd : Serial s d) (moves : List (Move (Program Q A α))) :
    Serial s (d.run s moves) := by
  induction moves generalizing d with
  | nil => exact hd
  | cons move moves ih => exact ih (hd.step move)

/-- Whatever the schedule, the history is that of the admitted programs one after the
other, as far as they have come. -/
theorem serial_run (s : Surroundings Q A) (moves : List (Move (Program Q A α))) :
    Serial s (empty.run s moves) := (serial_empty s).run moves

/-- What has been asked so far is the beginning of what the admitted programs ask. -/
theorem Serial.history_prefix (hd : Serial s d) :
    d.history <+: ((inTurn d.admitted).converse s []).2 := by
  cases hd with
  | idle _ hhistory _ => exact hhistory ▸ List.prefix_rfl
  | @busy before w abandoned rest _ hadmitted _ hrest _ =>
    rw [hadmitted, converse_inTurn_append, ← hrest]
    obtain ⟨more, hmore⟩ := rest.converse_extends s d.history
    exact ⟨more, hmore.symm⟩

/-- Once nothing is running, it is all that the admitted programs ask, and their
results have been told. -/
theorem Serial.of_idle (hd : Serial s d) (hidle : d.gate.running = none) :
    d.history = ((inTurn d.admitted).converse s []).2 ∧
      Told d.left d.told ((inTurn d.admitted).converse s []).1 := by
  cases hd with
  | idle _ hhistory htold => exact ⟨hhistory, htold⟩
  | busy hrunning => rw [hidle] at hrunning; cases hrunning

/-! ## §4 Leaving -/

/-- Whoever has left has made the move. -/
theorem mem_left_run {caller : String} {moves : List (Move (Program Q A α))}
    (h : caller ∈ (d.run s moves).left) : caller ∈ d.left ∨ .leave caller ∈ moves := by
  induction moves generalizing d with
  | nil => exact Or.inl h
  | cons move moves ih =>
    rcases ih h with h | h
    · cases move with
      | leave c =>
        rcases List.mem_append.mp h with h | h
        · exact Or.inl h
        · rw [List.mem_singleton.mp h]
          exact Or.inr List.mem_cons_self
      | enter c p => exact Or.inl h
      | admitNext =>
        obtain hsame | ⟨_, _, -, -, hstep⟩ := step_admitNext s d
        · exact Or.inl (hsame ▸ h)
        · rw [hstep] at h
          exact Or.inl h
      | proceed =>
        obtain hsame | ⟨_, _, _, _, -, hstep⟩ := step_proceed s d
        · exact Or.inl (hsame ▸ h)
        · rw [hstep] at h
          exact Or.inl h
      | finish =>
        obtain hsame | ⟨_, _, _, -, hstep⟩ := step_finish s d
        · exact Or.inl (hsame ▸ h)
        · rw [hstep] at h
          exact Or.inl h
    · exact Or.inr (List.mem_cons_of_mem _ h)

/-- All who are waiting or were admitted are such. -/
def Everyone (P : Waiting Q A α → Prop) (d : Desk Q A α) : Prop :=
  (∀ w ∈ d.gate.queue, P w) ∧ ∀ w ∈ d.admitted, P w

variable {P : Waiting Q A α → Prop}

theorem Everyone.step (h : d.Everyone P) {move : Move (Program Q A α)}
    (hmove : ∀ caller program, move = .enter caller program → P ⟨caller, program⟩) :
    (d.step s move).Everyone P := by
  cases move with
  | enter caller program =>
    refine ⟨fun w hw => ?_, h.2⟩
    rcases List.mem_append.mp hw with hw | hw
    · exact h.1 w hw
    · exact List.mem_singleton.mp hw ▸ hmove caller program rfl
  | leave caller => exact ⟨fun w hw => h.1 w (List.mem_of_mem_filter hw), h.2⟩
  | admitNext =>
    obtain hsame | ⟨w, rest, -, hqueue, hstep⟩ := step_admitNext s d
    · exact hsame.symm ▸ h
    · have hwaiting := h.1
      rw [hqueue] at hwaiting
      rw [hstep]
      refine ⟨fun v hv => hwaiting v (List.mem_cons_of_mem _ hv), fun v hv => ?_⟩
      rcases List.mem_append.mp hv with hv | hv
      · exact h.2 v hv
      · exact List.mem_singleton.mp hv ▸ hwaiting w List.mem_cons_self
  | proceed =>
    obtain hsame | ⟨_, _, _, _, -, hstep⟩ := step_proceed s d
    · exact hsame.symm ▸ h
    · exact hstep.symm ▸ h
  | finish =>
    obtain hsame | ⟨_, _, _, -, hstep⟩ := step_finish s d
    · exact hsame.symm ▸ h
    · exact hstep.symm ▸ h

theorem Everyone.run {moves : List (Move (Program Q A α))} (h : d.Everyone P)
    (hmoves : ∀ caller program, .enter caller program ∈ moves → P ⟨caller, program⟩) :
    (d.run s moves).Everyone P := by
  induction moves generalizing d with
  | nil => exact h
  | cons move moves ih =>
    refine ih (h.step fun caller program heq => hmoves caller program ?_)
      fun caller program hmem => hmoves caller program (List.mem_cons_of_mem _ hmem)
    exact heq ▸ List.mem_cons_self

/-- Who leaves before being admitted is never admitted, unless coming again. -/
theorem not_admitted_of_leave {caller : String} {moves : List (Move (Program Q A α))}
    (hadmitted : ∀ w ∈ d.admitted, w.caller ≠ caller)
    (hmoves : ∀ program, .enter caller program ∉ moves) :
    ∀ w ∈ (d.run s (.leave caller :: moves)).admitted, w.caller ≠ caller := by
  have hleft : (d.step s (.leave caller)).Everyone fun w => w.caller ≠ caller :=
    ⟨fun w hw => by simpa using (List.mem_filter.mp hw).2, hadmitted⟩
  refine (hleft.run fun c program hmem => ?_).2
  rintro rfl
  exact hmoves program hmem

/-- What is running can be brought to its end, whether or not its caller is there. -/
theorem exists_run_idle (s : Surroundings Q A) (d : Desk Q A α) :
    ∃ n, (d.run s (List.replicate n .proceed ++ [.finish])).gate.running = none ∧
      (d.run s (List.replicate n .proceed ++ [.finish])).admitted = d.admitted := by
  cases hrunning : d.gate.running with
  | none =>
    have hfinish : d.gate.finish? = none := by
      unfold finish?
      rw [hrunning]
    refine ⟨0, ?_⟩
    simp [run, step, hfinish, hrunning]
  | some r =>
    obtain ⟨caller, abandoned, rest⟩ := r
    induction rest generalizing d with
    | done result =>
      refine ⟨0, ?_⟩
      simp [run, step, finish?, hrunning]
    | ask q next ih =>
      have hstep : (d.step s .proceed).gate.running
          = some ⟨caller, abandoned, next (s d.history q)⟩ := by
        simp [step, proceed?, hrunning]
      obtain ⟨n, hidle, hadmitted⟩ := ih (s d.history q) (d.step s .proceed) hstep
      refine ⟨n + 1, hidle, hadmitted.trans ?_⟩
      simp [step, proceed?, hrunning]

end Desk

/-! ## §5 Lines -/

section Lines

variable {R : Type} {f : R → Program Q A α}

/-- A caller with what it brings, as the gate sees them. -/
def bring (f : R → Program Q A α) (call : String × R) : Waiting Q A α := ⟨call.1, f call.2⟩

/-- The caller who enters with the move, and what it brings. -/
def Move.entry? : Move R → Option (String × R)
  | enter caller request => some (caller, request)
  | _ => none

/-- Who enters in a schedule and with what, in the order of arrival. -/
def entries (moves : List (Move R)) : List (String × R) := moves.filterMap Move.entry?

theorem mem_entries {call : String × R} {moves : List (Move R)} :
    call ∈ entries moves ↔ .enter call.1 call.2 ∈ moves := by
  refine List.mem_filterMap.trans ⟨?_, fun hmem => ⟨_, hmem, rfl⟩⟩
  rintro ⟨move, hmem, hentry⟩
  cases move <;> cases hentry
  exact hmem

namespace Desk

variable {s : Surroundings Q A} {d d' : Desk Q A α} {moves before : List (Move R)} {move : Move R}
  {admitted queued admitted' queued' : List (String × R)}

/-- Who has been admitted with what after these moves, and who is queued with what. They
are callers who entered, in the order of arrival. If a caller leaves no more, all that it
enters with from then on is among them. -/
structure Lines (f : R → Program Q A α) (moves : List (Move R)) (d : Desk Q A α)
    (admitted queued : List (String × R)) : Prop where
  admitted_eq : d.admitted = admitted.map (bring f)
  queue_eq : d.gate.queue = queued.map (bring f)
  entered : (admitted ++ queued).Sublist (entries moves)
  kept : ∀ before after caller, moves = before ++ after → .leave caller ∉ after →
    (entries after).filter (·.1 = caller) <:+ (admitted ++ queued).filter (·.1 = caller)

theorem lines_empty (f : R → Program Q A α) : Lines f [] empty [] [] where
  admitted_eq := rfl
  queue_eq := rfl
  entered := List.Sublist.refl []
  kept before after caller hmoves _ := by
    obtain ⟨-, rfl⟩ := List.append_eq_nil_iff.mp hmoves.symm
    exact List.nil_suffix

/-- A move keeps the lines if at most those are taken out whose caller leaves with it. -/
theorem Lines.snoc (hd : Lines f moves d admitted queued)
    (hadmitted : d'.admitted = admitted'.map (bring f))
    (hqueue : d'.gate.queue = queued'.map (bring f))
    (hentered : (admitted' ++ queued').Sublist (admitted ++ queued ++ entries [move]))
    (hkept : ∀ caller, move ≠ .leave caller → (admitted' ++ queued').filter (·.1 = caller)
      = (admitted ++ queued ++ entries [move]).filter (·.1 = caller)) :
    Lines f (moves ++ [move]) d' admitted' queued' where
  admitted_eq := hadmitted
  queue_eq := hqueue
  entered := by
    rw [entries, List.filterMap_append]
    exact hentered.trans (hd.entered.append_right _)
  kept before after caller hmoves hstays := by
    obtain rfl | ⟨rest, last, rfl⟩ := List.eq_nil_or_concat after
    · exact List.nil_suffix
    · rw [List.concat_eq_append] at hmoves hstays ⊢
      rw [← List.append_assoc] at hmoves
      obtain ⟨hrest, hlast⟩ := List.append_inj' hmoves rfl
      cases hlast
      obtain ⟨earlier, hearlier⟩ := hd.kept before rest caller hrest
        fun hmem => hstays (List.mem_append_left _ hmem)
      have hne : move ≠ .leave caller := fun heq => hstays (by simp [heq])
      rw [hkept caller hne, List.filter_append, ← hearlier, entries, List.filterMap_append,
        List.filter_append, List.append_assoc]
      exact List.suffix_append _ _

/-- A move that takes nobody out keeps the lines. -/
theorem Lines.joined (hd : Lines f moves d admitted queued)
    (hadmitted : d'.admitted = admitted'.map (bring f))
    (hqueue : d'.gate.queue = queued'.map (bring f))
    (hline : admitted' ++ queued' = admitted ++ queued ++ entries [move]) :
    Lines f (moves ++ [move]) d' admitted' queued' :=
  hd.snoc hadmitted hqueue (hline ▸ List.Sublist.refl _) fun _ _ => by rw [hline]

/-- Every move keeps the lines: who enters is the last of the queue, and only who leaves is
taken out of it. -/
theorem Lines.step (hd : Lines f moves d admitted queued) (move : Move R) :
    ∃ admitted' queued', Lines f (moves ++ [move]) (d.step s (move.map f)) admitted' queued' := by
  have hstill : ∀ d' : Desk Q A α, d'.admitted = d.admitted → d'.gate.queue = d.gate.queue →
      entries [move] = [] → Lines f (moves ++ [move]) d' admitted queued :=
    fun d' hadmitted hqueue hnone => hd.joined (hadmitted.trans hd.admitted_eq)
      (hqueue.trans hd.queue_eq) (by rw [hnone, List.append_nil])
  cases move with
  | enter caller request =>
    refine ⟨admitted, queued ++ [(caller, request)], hd.joined hd.admitted_eq ?_ ?_⟩
    · show d.gate.queue ++ [⟨caller, f request⟩] = _
      rw [hd.queue_eq, List.map_append]
      rfl
    · exact (List.append_assoc _ _ _).symm
  | leave caller =>
    have hnone : entries [Move.leave (R := R) caller] = [] := rfl
    refine ⟨admitted, queued.filter (·.1 ≠ caller), hd.snoc hd.admitted_eq ?_ ?_ ?_⟩
    · show d.gate.queue.filter _ = _
      rw [hd.queue_eq, List.filter_map]
      rfl
    · rw [hnone, List.append_nil]
      exact List.filter_sublist.append_left admitted
    · intro other hne
      have hstays : ∀ call ∈ queued, call.1 = other → call.1 ≠ caller := by
        rintro call - rfl rfl
        exact hne rfl
      rw [hnone, List.append_nil, List.filter_append, List.filter_append, List.filter_filter]
      congr 1
      exact List.filter_congr fun call hcall => by simpa using hstays call hcall
  | admitNext =>
    show ∃ admitted' queued', Lines f _ (d.step s .admitNext) admitted' queued'
    obtain hsame | ⟨w, rest, -, hqueue, hstep⟩ := step_admitNext s d
    · exact ⟨admitted, queued, hstill _ (by rw [hsame]) (by rw [hsame]) rfl⟩
    · obtain ⟨call, others, rfl, rfl, rfl⟩ :=
        List.map_eq_cons_iff.mp (hd.queue_eq.symm.trans hqueue)
      rw [hstep]
      refine ⟨admitted ++ [call], others, hd.joined ?_ rfl ?_⟩
      · rw [hd.admitted_eq, List.map_append]
        rfl
      · simp [entries, Move.entry?]
  | proceed =>
    show ∃ admitted' queued', Lines f _ (d.step s .proceed) admitted' queued'
    obtain hsame | ⟨_, _, _, _, -, hstep⟩ := step_proceed s d
    · exact ⟨admitted, queued, hstill _ (by rw [hsame]) (by rw [hsame]) rfl⟩
    · exact ⟨admitted, queued, hstill _ (by rw [hstep]) (by rw [hstep]) rfl⟩
  | finish =>
    show ∃ admitted' queued', Lines f _ (d.step s .finish) admitted' queued'
    obtain hsame | ⟨_, _, _, -, hstep⟩ := step_finish s d
    · exact ⟨admitted, queued, hstill _ (by rw [hsame]) (by rw [hsame]) rfl⟩
    · exact ⟨admitted, queued, hstill _ (by rw [hstep]) (by rw [hstep]) rfl⟩

theorem Lines.run (hd : Lines f before d admitted queued) (moves : List (Move R)) :
    ∃ admitted' queued',
      Lines f (before ++ moves) (d.run s (moves.map (Move.map f))) admitted' queued' := by
  induction moves generalizing before d admitted queued with
  | nil => exact ⟨admitted, queued, (List.append_nil before).symm ▸ hd⟩
  | cons move moves ih =>
    obtain ⟨_, _, hstep⟩ := hd.step (s := s) move
    rw [List.append_cons]
    exact ih hstep

/-- Whatever the schedule, nobody gets lost: who enters and does not leave is admitted or
still queued. -/
theorem exists_lines (s : Surroundings Q A) (f : R → Program Q A α) (moves : List (Move R)) :
    ∃ admitted queued, Lines f moves (empty.run s (moves.map (Move.map f))) admitted queued :=
  (lines_empty f).run moves

end Desk

end Lines

end Gate

end SettingProfiles
