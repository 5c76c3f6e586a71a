/-
SettingProfiles.Store.Memory — surroundings in memory, with faults.

Everything the store can ask for is answered from one value: the stored
text, the old settings, a supply of ids, and the faults that wait for calls.
All calls are kept in the order in which they were made, so that what was
stored and what was announced can be read off a run. A supply that holds no
more unused ids ends the run.

  §1 Faults — which call goes wrong, and how.
  §2 Calls
  §3 Memory — answers and runs.
-/
import SettingProfiles.Store.Operation

namespace SettingProfiles

/-! ## §1 Faults -/

/-- The calls to the storage. -/
inductive StorageCall where
  | get
  | set
  | delete
  deriving DecidableEq

/-- A fault that waits for the last of a number of calls. -/
structure ArmedFault where
  on : StorageCall
  /-- How many calls are still to come, the one that goes wrong included. -/
  remaining : Nat
  fault : Fault
  deriving DecidableEq

namespace ArmedFault

/-- A call brings the faults that wait for its kind nearer. -/
def countDown (call : StorageCall) (f : ArmedFault) : ArmedFault :=
  if f.on = call then { f with remaining := f.remaining - 1 } else f

/-- The fault is due at this call. -/
def isDue (call : StorageCall) (f : ArmedFault) : Bool := f.on = call && f.remaining = 0

/-- The fault that a call meets, and the faults left over. Of several that are due
the first armed is met, and the others wait for the next call. -/
def meet (call : StorageCall) (faults : List ArmedFault) : Option Fault × List ArmedFault :=
  let counted := faults.map (countDown call)
  ((counted.find? (isDue call)).map fault, counted.eraseP (isDue call))

end ArmedFault

/-! ## §2 Calls -/

/-- A call that was made, and whether it went wrong. -/
structure Call where
  effect : Effect
  failed : Bool
  deriving DecidableEq

namespace Call

/-- The text that a call stored. -/
def stored? (c : Call) : Option String :=
  match c.effect, c.failed with
  | .set text, false => some text
  | _, _ => none

/-- The event that a call announced. -/
def event? (c : Call) : Option StoreEvent :=
  match c.effect with
  | .publish event => some event
  | _ => none

end Call

/-! ## §3 Memory -/

/-- All that the store's calls are answered from, and the calls so far. -/
structure Memory where
  text : Option String
  legacy : LegacyValues
  /-- The ids that can still be drawn, in order. -/
  ids : List String
  faults : List ArmedFault
  calls : List Call
  deriving DecidableEq

namespace Memory

instance : Inhabited Memory := ⟨⟨none, .empty, [], [], []⟩⟩

def record (m : Memory) (effect : Effect) (failed : Bool) : Memory :=
  { m with calls := m.calls ++ [⟨effect, failed⟩] }

/-- A call to the storage: it meets a fault, or it is answered and acts. -/
def storageCall {α : Type} (call : StorageCall) (effect : Effect) (act : Memory → α × Memory) :
    StateM Memory (Except Fault α) := fun m =>
  let (met, faults) := ArmedFault.meet call m.faults
  let m := { m with faults := faults }
  match met with
  | some fault => (.error fault, m.record effect true)
  | none =>
    let (a, m) := act m
    (.ok a, m.record effect false)

/-- The answer to an effect, and the memory after it. -/
def answer : (e : Effect) → StateT Memory Option e.Answer
  | .get => fun m => some (storageCall .get .get (fun m => (m.text, m)) m)
  | .set text => fun m =>
    some (storageCall .set (.set text) (fun m => ((), { m with text := some text })) m)
  | .delete => fun m =>
    some (storageCall .delete .delete (fun m => ((), { m with text := none })) m)
  | .legacy key => fun m => some (.ok (m.legacy.get? key), m.record (.legacy key) false)
  | .freshId inUse => fun m =>
    (Document.freshId? inUse m.ids).map fun (id, rest) =>
      (id, { m with ids := rest }.record (.freshId inUse) false)
  | .publish event => fun m => some ((), m.record (.publish event) false)

/-- Runs a program against the memory. -/
def run {α : Type} (p : Program Effect Effect.Answer α) (m : Memory) : Option (α × Memory) :=
  (p.run answer).run m

/-- Performs an operation of the store. -/
def perform (op : Operation) (m : Memory) :
    Option (Except OperationError op.Result × Memory) := m.run op.program

end Memory

end SettingProfiles
