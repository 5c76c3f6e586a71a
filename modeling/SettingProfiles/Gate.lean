/-
SettingProfiles.Gate — one operation at a time, in the order of arrival.

Callers enter a queue with the program they want run. The gate admits the
first of them when nothing is running, and nobody else until that program
has ended, whichever way it ends. A caller who leaves while waiting is taken
out of the queue; one who leaves after being admitted is no longer told the
result, but the program runs to its end all the same.

  §1 Gates — entering, leaving, admitting, ending.
  §2 Running until nothing can proceed
-/
import SettingProfiles.Program

namespace SettingProfiles

/-! ## §1 Gates -/

/-- A caller in the queue, and the program that is to be run. -/
structure Waiting (Q : Type) (A : Q → Type) (α : Type) where
  caller : String
  program : Program Q A α

/-- What is left of an admitted program. -/
structure Admitted (Q : Type) (A : Q → Type) (α : Type) where
  caller : String
  /-- The caller has left. -/
  abandoned : Bool
  rest : Program Q A α

/-- The queue, in the order of arrival, and the program that was admitted last,
if it has not ended. -/
structure Gate (Q : Type) (A : Q → Type) (α : Type) where
  queue : List (Waiting Q A α)
  running : Option (Admitted Q A α)

namespace Gate

variable {Q : Type} {A : Q → Type} {α : Type}

/-- Nobody has come yet. -/
def empty : Gate Q A α := ⟨[], none⟩

instance : Inhabited (Gate Q A α) := ⟨empty⟩

/-- A caller joins the end of the queue. -/
def enter (g : Gate Q A α) (caller : String) (program : Program Q A α) : Gate Q A α :=
  { g with queue := g.queue ++ [⟨caller, program⟩] }

/-- A caller leaves, whether waiting or admitted. -/
def leave (g : Gate Q A α) (caller : String) : Gate Q A α where
  queue := g.queue.filter fun w => w.caller ≠ caller
  running := g.running.map fun r => { r with abandoned := r.abandoned || r.caller = caller }

/-- Admits the first caller of the queue, if nothing is running. -/
def admit? (g : Gate Q A α) : Option (Gate Q A α) :=
  match g.running, g.queue with
  | none, w :: rest => some ⟨rest, some ⟨w.caller, false, w.program⟩⟩
  | _, _ => none

/-- Answers the question of the running program, if the answer is there. -/
def proceed? (answer : (q : Q) → Option (A q)) (g : Gate Q A α) : Option (Gate Q A α) :=
  match g.running with
  | some ⟨caller, abandoned, .ask q next⟩ =>
    (answer q).map fun a => { g with running := some ⟨caller, abandoned, next a⟩ }
  | _ => none

/-- The result of a caller's program. -/
structure Finished (α : Type) where
  caller : String
  result : α
  deriving DecidableEq

/-- Ends the running program, if it is done. Its caller, unless gone, is told the
result. -/
def finish? (g : Gate Q A α) : Option (Option (Finished α) × Gate Q A α) :=
  match g.running with
  | some ⟨caller, abandoned, .done result⟩ =>
    some (if abandoned then none else some ⟨caller, result⟩, { g with running := none })
  | _ => none

end Gate

/-! ## §2 Running until nothing can proceed -/

/-- Goes on with a program as long as its questions are answered. -/
def Program.advance {Q : Type} {A : Q → Type} {α σ : Type}
    (answer : (q : Q) → StateT σ Option (A q)) : Program Q A α → σ → Program Q A α × σ
  | .done a, s => (.done a, s)
  | .ask q next, s =>
    match (answer q).run s with
    | some (a, s) => (next a).advance answer s
    | none => (.ask q next, s)

namespace Gate

variable {Q : Type} {A : Q → Type} {α σ : Type}

/-- What came of letting a gate run. -/
structure Settled (Q : Type) (A : Q → Type) (α σ : Type) where
  finished : List (Finished α)
  gate : Gate Q A α
  state : σ

/-- Admits the callers of a queue one after the other, as long as each program
runs to its end. -/
def serve (answer : (q : Q) → StateT σ Option (A q)) :
    List (Waiting Q A α) → σ → Settled Q A α σ
  | [], s => ⟨[], empty, s⟩
  | w :: rest, s =>
    match w.program.advance answer s with
    | (.done result, s) =>
      let settled := serve answer rest s
      { settled with finished := ⟨w.caller, result⟩ :: settled.finished }
    | (left, s) => ⟨[], ⟨rest, some ⟨w.caller, false, left⟩⟩, s⟩

/-- Lets everything run until nothing can proceed. -/
def settle (answer : (q : Q) → StateT σ Option (A q)) (g : Gate Q A α) (s : σ) :
    Settled Q A α σ :=
  match g.running with
  | none => serve answer g.queue s
  | some r =>
    match r.rest.advance answer s with
    | (.done result, s) =>
      let settled := serve answer g.queue s
      if r.abandoned then settled
      else { settled with finished := ⟨r.caller, result⟩ :: settled.finished }
    | (left, s) => ⟨[], { g with running := some { r with rest := left } }, s⟩

end Gate

end SettingProfiles
