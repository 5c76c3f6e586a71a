/-
SettingProfiles.Store.Effect — what the store asks of its surroundings.

The store keeps one text in a storage, reads settings that used to be global
from an old place, needs fresh ids, and announces changes. Each is a
question; `Effect.Answer` says what may come back. A storage call may go wrong
(`Fault`), a look at an old setting may break off.
-/
import SettingProfiles.Program
import SettingProfiles.Store.Error
import SettingProfiles.Store.Snapshot

namespace SettingProfiles

/-- The key under which the document is stored. -/
def documentKey : String := "profile_store_document"

/-- What the store may ask of its surroundings. -/
inductive Effect where
  /-- The stored text, if there is one. -/
  | get
  /-- Stores a text over the one stored before. -/
  | set (text : String)
  /-- Deletes the stored text, if there is one. -/
  | delete
  /-- The value of a setting in the old place. -/
  | legacy (key : String)
  /-- An id that is not among those in use. -/
  | freshId (inUse : List String)
  | publish (event : StoreEvent)
  deriving DecidableEq

namespace Effect

/-- What an effect is answered with. -/
abbrev Answer : Effect → Type
  | .get => Except Fault (Option String)
  | .set _ => Except Fault Unit
  | .delete => Except Fault Unit
  | .legacy _ => Except Panic (Option Setting)
  | .freshId _ => String
  | .publish _ => Unit

/-- Asks for one effect. -/
def call (e : Effect) : Program Effect Effect.Answer e.Answer := Program.query e

end Effect

/-- A program that calls the surroundings and may fail. -/
abbrev Procedure (α : Type) : Type := ExceptT StoreError (Program Effect Effect.Answer) α

namespace Procedure

/-- Goes on with the answer to a storage call, or fails with it. -/
def storage {α : Type} (p : Program Effect Effect.Answer (Except Fault α)) : Procedure α :=
  ExceptT.mk do
    match ← p with
    | .ok a => return .ok a
    | .error f => return .error (.ofFault f)

def get : Procedure (Option String) := storage (Effect.call .get)

def set (text : String) : Procedure Unit := storage (Effect.call (.set text))

def delete : Procedure Unit := storage (Effect.call .delete)

def legacy (key : String) : Procedure (Option Setting) :=
  ExceptT.mk do
    match ← Effect.call (.legacy key) with
    | .ok value => return .ok value
    | .error p => return .error (.aborted p)

def freshId (inUse : List String) : Procedure String :=
  ExceptT.lift (Effect.call (.freshId inUse))

def publish (event : StoreEvent) : Procedure Unit := ExceptT.lift (Effect.call (.publish event))

/-- The result of an operation on a document. -/
def ofDocument {α : Type} : Except DocumentError α → Procedure α
  | .ok a => pure a
  | .error e => throw (.ofDocument e)

end Procedure

end SettingProfiles
