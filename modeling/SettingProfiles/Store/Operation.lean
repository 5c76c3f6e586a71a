/-
SettingProfiles.Store.Operation — what can be asked of the store.

The stored text is all the store knows: every operation reads it, brings the
document up to date, and, if it changes the document, stores the new text
and then announces the change. What is refused is refused before anything
is stored. Only importing and deleting do not look at the stored text, so
they also work when it cannot be read.

  §1 Operations — the list of them, and what each returns.
  §2 Reading and committing
  §3 Bodies     — what each operation does.
  §4 Failures   — labelled with the operation.
-/
import SettingProfiles.Store.Upgrading

namespace SettingProfiles

/-! ## §1 Operations -/

/-- An operation of the store. -/
inductive Operation where
  /-- Makes sure that there is a document, and that it is up to date. -/
  | prepare
  | list
  | save (name : String) (settings : SettingMap)
  /-- Makes the profile current and returns its settings. -/
  | load (name : String)
  | loadById (id : String)
  /-- Returns the profile without making it current. -/
  | profile (name : String)
  | delete (name : String)
  | setCurrent (name : String)
  | current
  | contains (name : String)
  /-- Binds a mode to an id, which need not be that of a profile. -/
  | bindMode (mode id : String)
  | modeBinding (mode : String)
  | snapshot
  | exportDocument
  | importDocument (doc : Document)
  /-- Deletes the stored document; the next operation starts from a new one. -/
  | reset
  deriving DecidableEq

namespace Operation

/-- What the operation returns. -/
abbrev Result : Operation → Type
  | .prepare | .snapshot | .importDocument _ => Snapshot
  | .list => List ProfileSummary
  | .save .. | .current => String
  | .load _ => SettingMap
  | .loadById _ => String × SettingMap
  | .profile _ | .delete _ => Profile
  | .setCurrent _ | .bindMode .. | .reset => Unit
  | .contains _ => Bool
  | .modeBinding _ => Option String
  | .exportDocument => Document

/-- What is being done, for the text of a failure. -/
def phrase : Operation → String
  | .prepare => "initialize config store"
  | .list => "list configs"
  | .save .. => "save config"
  | .load _ => "load config"
  | .loadById _ => "load config by id"
  | .profile _ => "read config"
  | .delete _ => "delete config"
  | .setCurrent _ => "set current config"
  | .current => "read current config"
  | .contains _ => "check config"
  | .bindMode .. => "set mode binding"
  | .modeBinding _ => "get mode binding"
  | .snapshot => "read config snapshot"
  | .exportDocument => "export configs"
  | .importDocument _ => "import configs"
  | .reset => "reset configs"

/-- The result in JSON. -/
def resultJson : (op : Operation) → op.Result → Json
  | .prepare, s | .snapshot, s | .importDocument _, s => Snapshot.toJson s
  | .list, summaries => .array (List.map ProfileSummary.toJson summaries)
  | .save .., text | .current, text => .text text
  | .load _, settings => SettingMap.toJson settings
  | .loadById _, (name, settings) => .array [.text name, SettingMap.toJson settings]
  | .profile _, p | .delete _, p => Profile.toJson p
  | .setCurrent _, () | .bindMode .., () | .reset, () => .null
  | .contains _, b => .bool b
  | .modeBinding _, id => Json.ofOption .text id
  | .exportDocument, doc => Document.toJson doc

end Operation

/-! ## §2 Reading and committing -/

namespace Procedure

/-- The document of a stored text, which must be valid. -/
def decode (text : String) : Procedure Document :=
  match Document.decode? text with
  | none => throw .corrupt
  | some doc =>
    match doc.validate with
    | .ok () => pure doc
    | .error e => throw (.invalidDocument e)

/-- The stored document, or a new one, which is stored. -/
def readStored : Procedure Document := do
  match ← get with
  | some text => decode text
  | none =>
    let doc ← Document.initial freshId
    persist doc
    return doc

/-- The stored document, brought up to date. -/
def read : Procedure Document := do
  return (← (← readStored).ensureUpgraded).document

/-- Stores a changed document and announces it. -/
def commit (doc : Document) : Procedure Unit := do
  persist doc
  publish (.changed (.of doc))

end Procedure

/-! ## §3 Bodies -/

namespace Procedure

/-- The rate limit for a profile that is saved without one: its stored value, that
of another profile, a usable value from the old place, or the default. -/
def inheritedRateLimit (doc : Document) (name : String) : Procedure Setting := do
  match doc.existingValue? SettingName.rateLimitSeconds (some name) with
  | some value => return value
  | none => return (← readLegacy [SettingName.rateLimitSeconds]).rateLimit

/-- The settings with a rate limit: their own, or else an inherited one. -/
def withRateLimit (doc : Document) (name : String) (settings : SettingMap) :
    Procedure SettingMap := do
  if settings.contains SettingName.rateLimitSeconds then return settings
  else
    let limit ← inheritedRateLimit doc name
    return settings.insert SettingName.rateLimitSeconds limit

/-- Stores the settings under the name, with a rate limit if they have none, and
returns the id of the profile. -/
def save (name : String) (settings : SettingMap) : Procedure String := do
  if name = "" then throw (.invalidName name)
  let doc ← read
  let settings ← withRateLimit doc name settings
  let stored ← ofDocument (← doc.upsert freshId name settings)
  commit stored.document
  return stored.id

/-- Makes the profile current and returns it. -/
def activate (doc : Document) (name : String) : Procedure Profile := do
  let p ← ofDocument (doc.profile name)
  commit (← ofDocument (doc.setCurrent name))
  return p

def load (name : String) : Procedure SettingMap := do
  return (← activate (← read) name).settings

def loadById (id : String) : Procedure (String × SettingMap) := do
  let doc ← read
  match doc.profileById? id with
  | none => throw (.notFound id)
  | some (name, _) => return (name, (← activate doc name).settings)

def remove (name : String) : Procedure Profile := do
  let (removed, rest) ← ofDocument ((← read).remove name)
  commit rest
  return removed

/-- Stores the document in place of the stored one, after bringing it up to date. -/
def importDocument (doc : Document) : Procedure Snapshot := do
  ofDocument doc.validate
  let upgraded ← doc.upgradeDetached
  commit upgraded.document
  return .of upgraded.document

end Procedure

namespace Operation

open Procedure (read commit ofDocument)

/-- What the operation does. -/
def body : (op : Operation) → Procedure op.Result
  | .prepare | .snapshot => return .of (← read)
  | .list => return (← read).summaries
  | .save name settings => Procedure.save name settings
  | .load name => Procedure.load name
  | .loadById id => Procedure.loadById id
  | .profile name => do ofDocument ((← read).profile name)
  | .delete name => Procedure.remove name
  | .setCurrent name => do commit (← ofDocument ((← read).setCurrent name))
  | .current => return (← read).current
  | .contains name => return (← read).contains name
  | .bindMode mode id => do commit ((← read).bindMode mode id)
  | .modeBinding mode => return (← read).modeBindings.get? mode
  | .exportDocument => read
  | .importDocument doc => Procedure.importDocument doc
  | .reset => do
    Procedure.delete
    Procedure.publish .reset

end Operation

/-! ## §4 Failures -/

/-- The failure of an operation. -/
structure OperationError where
  operation : Operation
  cause : StoreError
  deriving DecidableEq

def OperationError.message (e : OperationError) : String :=
  "failed to " ++ e.operation.phrase ++ ": " ++ e.cause.message

/-- The operation as a program, whose failures are labelled with it. -/
def Operation.program (op : Operation) :
    Program Effect Effect.Answer (Except OperationError op.Result) := do
  match ← op.body.run with
  | .ok result => return .ok result
  | .error cause => return .error ⟨op, cause⟩

end SettingProfiles
