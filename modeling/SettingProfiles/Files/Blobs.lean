/-
SettingProfiles.Files.Blobs — texts by key, each in a file of its own.

The text of a key is in the file `<key>.json` of one directory. It is
written to `<key>.json.tmp` first, which is then moved to its place, so
whoever reads the file finds the old text or the new one and never part of
either. Keys that would lead out of the directory are refused before any
step is taken.
-/
import SettingProfiles.Files.Path
import SettingProfiles.Files.Step
import SettingProfiles.Store.Error

namespace SettingProfiles

/-- The directory in which the texts are kept. -/
structure FileBlobs where
  directory : String
  deriving DecidableEq

namespace FileBlobs

/-- Steps on files that may fail. -/
abbrev Steps (α : Type) : Type := ExceptT StorageError (Program FileStep FileStep.Answer) α

/-- A key must be a name, and may not be one of a directory. -/
def isValidKey (key : String) : Bool :=
  key ≠ "" && key ≠ "." && key ≠ ".." && key.toList.all fun c => c ≠ '/' && c ≠ '\\' && c ≠ '\x00'

/-- The file of a key. -/
def path (b : FileBlobs) (key : String) : String := Path.join b.directory (key ++ ".json")

/-- The file to which the text of a key is written first. -/
def draftPath (b : FileBlobs) (key : String) : String := b.path key ++ ".tmp"

/-- Refuses a key that is not valid. -/
def checkKey (key : String) : Steps Unit :=
  if isValidKey key then pure () else throw (.invalidKey key)

/-- Takes a step; its failure is one of the given path. -/
def step (path : String) (p : Program FileStep FileStep.Answer (Except FileError Unit)) :
    Steps Unit :=
  ExceptT.mk do
    match ← p with
    | .ok () => return .ok ()
    | .error e => return .error (.file path e)

/-- Takes a step for which it is all the same whether the file is there. -/
def lenientStep {α : Type} (path : String) (absent : α)
    (p : Program FileStep FileStep.Answer (Except FileError α)) : Steps α :=
  ExceptT.mk do
    match ← p with
    | .ok a => return .ok a
    | .error .notFound => return .ok absent
    | .error e => return .error (.file path e)

/-- The text of a key, if there is one. -/
def get (b : FileBlobs) (key : String) : Steps (Option String) := do
  checkKey key
  let path := b.path key
  lenientStep path none do
    match ← FileStep.take (.read path) with
    | .ok text => return .ok (some text)
    | .error e => return .error e

/-- Replaces the text of a key. -/
def set (b : FileBlobs) (key text : String) : Steps Unit := do
  checkKey key
  step b.directory (FileStep.take (.makeDirectory b.directory))
  step (b.draftPath key) (FileStep.take (.write (b.draftPath key) text))
  step (b.path key) (FileStep.take (.rename (b.draftPath key) (b.path key)))

/-- Removes the text of a key, if there is one. -/
def delete (b : FileBlobs) (key : String) : Steps Unit := do
  checkKey key
  lenientStep (b.path key) () (FileStep.take (.remove (b.path key)))

end FileBlobs

end SettingProfiles
