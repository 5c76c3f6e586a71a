/-
SettingProfiles.Store.Error — how a storage call and an operation of the
store can fail.

Errors are causes; the wording of each is in one place. An operation of the
store that fails reports its cause together with the operation, so the text
of every failure begins with what was being done (`Store.Operation`).
-/
import SettingProfiles.Document.Basic
import SettingProfiles.Files.Failure
import SettingProfiles.Text.Quoted
import SettingProfiles.Upgrade.Basic

namespace SettingProfiles

/-! ## Storage -/

/-- How a call to the storage can fail. -/
inductive StorageError where
  /-- A step on the file or directory at the path failed. -/
  | file (path : String) (error : FileError)
  /-- The key is not one under which the storage can keep anything. -/
  | invalidKey (key : String)
  | backend (reason : String)
  deriving DecidableEq

def StorageError.message : StorageError → String
  | .file path error => "I/O error accessing " ++ path ++ ": " ++ error.message
  | .invalidKey key => "invalid storage key: " ++ Text.quoted key
  | .backend reason => "storage backend failure: " ++ reason

/-- A call that breaks off, and what it says. -/
structure Panic where
  message : String
  deriving DecidableEq

/-- How a call to the storage can go wrong: it reports an error or breaks off. -/
inductive Fault where
  | error (e : StorageError)
  | panic (p : Panic)
  deriving DecidableEq

/-! ## Operations -/

/-- Why an operation of the store fails. -/
inductive StoreError where
  /-- There is no profile of this name or id. -/
  | notFound (name : String)
  | lastProfile
  | invalidName (name : String)
  | storage (e : StorageError)
  /-- The stored text is not that of a document. -/
  | corrupt
  /-- A document is refused. -/
  | invalidDocument (e : DocumentError)
  /-- An upgrade refuses the document. -/
  | upgrade (u : Upgrade) (e : DocumentError)
  /-- A call broke off, and the operation with it. -/
  | aborted (p : Panic)
  deriving DecidableEq

namespace StoreError

/-- What is said of a stored text that cannot be read. -/
def corruptReason : String := "the text is not that of a document"

/-- What is said of an operation that broke off. -/
def abortedReason : String := "the operation panicked"

def message : StoreError → String
  | .notFound name => "profile not found: " ++ name
  | .lastProfile => "cannot delete the last remaining profile"
  | .invalidName name => "invalid profile name: " ++ Text.quoted name
  | .storage e => "storage error: " ++ e.message
  | .corrupt => "stored document is corrupt: " ++ corruptReason
  | .invalidDocument e => "stored document is invalid: " ++ e.message
  | .upgrade u e => "migration " ++ u.name ++ " failed: invalid document: " ++ e.message
  | .aborted p =>
    "operation aborted: " ++ abortedReason ++ " with message " ++ Text.quoted p.message

/-- The cause that an error of a document's operation is to the store. -/
def ofDocument : DocumentError → StoreError
  | .notFound name => .notFound name
  | .lastProfile => .lastProfile
  | .emptyName => .invalidName ""
  | .noProfiles => .invalidDocument .noProfiles

def ofFault : Fault → StoreError
  | .error e => .storage e
  | .panic p => .aborted p

end StoreError

end SettingProfiles
