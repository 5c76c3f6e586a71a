/-
SettingProfiles.Machine — the store on the files of a machine.

A machine takes steps on files, supplies ids and passes announcements on.
With one text per key in a directory (`FileBlobs`) and old settings that do
not change, that is all the store asks for. The machine is a parameter: a
real one acts on files, and the one in memory on a `FileTree`.
-/
import SettingProfiles.Files.Blobs
import SettingProfiles.Files.Tree
import SettingProfiles.Store.Operation

namespace SettingProfiles

/-- What a machine does, in some monad. -/
structure Machine (m : Type → Type) where
  step : (s : FileStep) → m s.Answer
  /-- An id that is not among those in use. -/
  freshId : (inUse : List String) → m String
  publish : StoreEvent → m Unit

/-- Where the store of a machine keeps its document, and the old settings. -/
structure Installation where
  blobs : FileBlobs
  legacy : LegacyValues
  deriving DecidableEq

namespace Machine

variable {m : Type → Type} [Monad m]

/-- Takes steps that may fail. -/
def steps {α : Type} (machine : Machine m) (p : FileBlobs.Steps α) : m (Except Fault α) := do
  match ← p.run.run machine.step with
  | .ok a => return .ok a
  | .error e => return .error (.error e)

/-- The answer to a call of the store. -/
def answer (machine : Machine m) (i : Installation) : (e : Effect) → m e.Answer
  | .get => machine.steps (i.blobs.get documentKey)
  | .set text => machine.steps (i.blobs.set documentKey text)
  | .delete => machine.steps (i.blobs.delete documentKey)
  | .legacy key => pure (.ok (i.legacy.get? key))
  | .freshId inUse => machine.freshId inUse
  | .publish event => machine.publish event

/-- Runs a program of the store. -/
def run {α : Type} (machine : Machine m) (i : Installation)
    (p : Program Effect Effect.Answer α) : m α := p.run (machine.answer i)

end Machine

/-- A machine in memory: its files, the ids that can still be drawn, and what was
announced. -/
structure MachineState where
  files : FileTree
  ids : List String
  events : List StoreEvent
  deriving DecidableEq

/-- The machine in memory. A supply that holds no more unused ids ends the run. -/
def Machine.inMemory : Machine (StateT MachineState Option) where
  step s := fun state =>
    let (answer, files) := (FileTree.answer s).run state.files
    some (answer, { state with files := files })
  freshId inUse := fun state =>
    (Document.freshId? inUse state.ids).map fun (id, rest) => (id, { state with ids := rest })
  publish event := fun state => some ((), { state with events := state.events ++ [event] })

end SettingProfiles
