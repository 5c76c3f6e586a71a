/-
SettingProfiles.Proofs.Files.Requests — what is asked of the texts by key, and what comes
of it.

The files of the keys and those to which their texts are written first have names of their
own in the directory: a key may look like the name of another key's file, and still no two
of these names are the same. A request is taken apart into the steps it takes, each of
which may fail.

  §1 Names    — the names of the files of keys.
  §2 Requests — `Request`, `Served`; refusals, and what is asked for valid keys.
  §3 Runs     — a request that was served, step by step.
  §4 Texts in memory — what the requests that succeeded come to.
-/
import SettingProfiles.Files.Blobs
import SettingProfiles.Proofs.Files.Faults
import SettingProfiles.Store.MemoryBlobs

namespace SettingProfiles

namespace FileBlobs

/-! ## §1 Names -/

/-- The name of the file of a key. -/
def fileName (key : String) : String := key ++ ".json"

/-- The name of the file to which the text of a key is written first. -/
def draftName (key : String) : String := key ++ ".json.tmp"

variable {b : FileBlobs} {key other text : String}

/-- A valid key holds no character that separates names or ends a path. -/
theorem notMem_of_isValidKey (h : isValidKey key = true) {c : Char} (hc : c ∈ key.toList) :
    c ≠ '/' ∧ c ≠ '\\' ∧ c ≠ '\x00' := by
  simp only [isValidKey, Bool.and_eq_true, List.all_eq_true] at h
  simpa [and_assoc] using h.2 c hc

theorem noSlash_of_isValidKey (h : isValidKey key = true) : '/' ∉ key.toList :=
  fun hmem => (notMem_of_isValidKey h hmem).1 rfl

/-- With its ending, a valid key is the name of a file in the directory. -/
theorem isName_fileName (h : isValidKey key = true) : Path.IsName (fileName key) :=
  Path.isName_append (noSlash_of_isValidKey h) (by decide) (by decide)

theorem isName_draftName (h : isValidKey key = true) : Path.IsName (draftName key) :=
  Path.isName_append (noSlash_of_isValidKey h) (by decide) (by decide)

theorem path_eq (b : FileBlobs) (key : String) :
    b.path key = Path.join b.directory (fileName key) := rfl

/-- The path with an ending behind it is the path to the name with that ending. -/
theorem draftPath_eq (b : FileBlobs) (h : isValidKey key = true) :
    b.draftPath key = Path.join b.directory (draftName key) := by
  have happend : draftName key = fileName key ++ ".tmp" := by
    rw [fileName, String.append_assoc]
    rfl
  rw [draftPath, path_eq, Path.join, Path.join, (isName_fileName h).isAbsolute,
    (isName_draftName h).isAbsolute, happend]
  simp only [Bool.false_eq_true, if_false]
  split <;> simp only [String.append_assoc]

/-- Different keys have different files. -/
theorem fileName_inj (h : fileName key = fileName other) : key = other :=
  (String.append_left_inj ".json").mp h

/-- No text is written first where the text of a key is kept. -/
theorem draftName_ne_fileName (key other : String) : draftName key ≠ fileName other := by
  intro h
  have hlast := congrArg (fun name : String => name.toList.getLast?) h
  simp [draftName, fileName, String.toList_append] at hlast

end FileBlobs

/-! ## §2 Requests -/

namespace FileBlobs

/-- What can be asked of the texts by key. -/
inductive Request where
  | get (key : String)
  | set (key text : String)
  | delete (key : String)
  deriving DecidableEq

namespace Request

def key : Request → String
  | .get key | .set key _ | .delete key => key

/-- What a request that succeeds returns. -/
abbrev Result : Request → Type
  | .get _ => Option String
  | .set .. | .delete _ => Unit

end Request

/-- A request and what it came to. -/
structure Served where
  request : Request
  outcome : Except StorageError request.Result

variable {b : FileBlobs} {key text : String} {t t' : FileTree}

/-- The steps that serve a request. -/
def serve (b : FileBlobs) : (r : Request) → Steps r.Result
  | .get key => b.get key
  | .set key text => b.set key text
  | .delete key => b.delete key

/-- The result of a step for which it is all the same whether the file is there. -/
def lenient {α : Type} (path : String) (absent : α) : Except FileError α → Except StorageError α
  | .ok a => .ok a
  | .error .notFound => .ok absent
  | .error e => .error (.file path e)

/-- Goes on after a step that succeeded. -/
def proceed (path : String) (rest : Program FileStep FileStep.Answer (Except StorageError Unit)) :
    Except FileError Unit → Program FileStep FileStep.Answer (Except StorageError Unit)
  | .ok () => rest
  | .error e => .done (.error (.file path e))

/-- A key that is not valid is refused before any step. -/
theorem serve_of_invalid {r : Request} (b : FileBlobs) (h : isValidKey r.key = false) :
    (b.serve r).run = .done (.error (.invalidKey r.key)) := by
  cases r with
  | get key =>
    simp only [Request.key] at h
    simp only [serve, get, checkKey, h]
    rfl
  | set key text =>
    simp only [Request.key] at h
    simp only [serve, set, checkKey, h]
    rfl
  | delete key =>
    simp only [Request.key] at h
    simp only [serve, delete, checkKey, h]
    rfl

/-- A look-up is one step, and the absence of the file is no failure. -/
theorem run_get (b : FileBlobs) (h : isValidKey key = true) :
    (b.get key).run
      = .ask (.read (b.path key)) fun answer =>
          .done (lenient (b.path key) none (answer.map some)) := by
  simp only [get, checkKey, h]
  show Program.ask _ _ = _
  congr 1
  funext answer
  cases answer with
  | ok text => rfl
  | error e => cases e <;> rfl

/-- The request can come to this, and leave these files. -/
def Serves (b : FileBlobs) (t : FileTree) (served : Served) (t' : FileTree) : Prop :=
  Program.Runs FileTree.Takes t (b.serve served.request).run served.outcome t'

/-- What a key has when it is looked up and no step fails. -/
def look (b : FileBlobs) (t : FileTree) (key : String) : Except StorageError (Option String) :=
  ((b.get key).run.run FileTree.answer t).1

/-- For an invalid key a refusal is all that it can come to, and it leaves the files as
they are. -/
theorem serves_of_invalid {r : Request} {outcome : Except StorageError r.Result}
    (hkey : isValidKey r.key = false) :
    b.Serves t ⟨r, outcome⟩ t' ↔ outcome = .error (.invalidKey r.key) ∧ t' = t := by
  rw [Serves, serve_of_invalid b hkey, Program.runs_done_iff]

/-- A look-up comes to what its one step comes to. -/
theorem serves_get_iff (hkey : isValidKey key = true)
    {outcome : Except StorageError (Option String)} :
    b.Serves t ⟨.get key, outcome⟩ t' ↔
      ∃ answer, t.Takes (.read (b.path key)) answer t' ∧
        outcome = lenient (b.path key) none (answer.map some) := by
  simp only [Serves, serve, run_get b hkey, Program.runs_ask_iff, Program.runs_done_iff]
  constructor
  · rintro ⟨answer, t₁, htakes, hout, rfl⟩
    exact ⟨answer, htakes, hout⟩
  · rintro ⟨answer, htakes, hout⟩
    exact ⟨answer, t', htakes, hout, rfl⟩

/-- The text of a key is written and moved to its place, or one of the two fails. -/
inductive WriteRun (b : FileBlobs) (key text : String) (t : FileTree) :
    Except StorageError Unit → FileTree → Prop
  | notWritten {t₁ : FileTree} {e : FileError}
      (written : t.Takes (.write (b.draftPath key) text) (.error e) t₁) :
      WriteRun b key text t (.error (.file (b.draftPath key) e)) t₁
  | notMoved {t₁ t₂ : FileTree} {e : FileError}
      (written : t.Takes (.write (b.draftPath key) text) (.ok ()) t₁)
      (moved : t₁.Takes (.rename (b.draftPath key) (b.path key)) (.error e) t₂) :
      WriteRun b key text t (.error (.file (b.path key) e)) t₂
  | moved {t₁ t₂ : FileTree}
      (written : t.Takes (.write (b.draftPath key) text) (.ok ()) t₁)
      (moved : t₁.Takes (.rename (b.draftPath key) (b.path key)) (.ok ()) t₂) :
      WriteRun b key text t (.ok ()) t₂

/-- The directory is made first, which may fail as well. -/
inductive SetRun (b : FileBlobs) (key text : String) (t : FileTree) :
    Except StorageError Unit → FileTree → Prop
  | notMade {t₁ : FileTree} {e : FileError}
      (made : t.Takes (.makeDirectory b.directory) (.error e) t₁) :
      SetRun b key text t (.error (.file b.directory e)) t₁
  | made {t₁ t₂ : FileTree} {outcome : Except StorageError Unit}
      (made : t.Takes (.makeDirectory b.directory) (.ok ()) t₁)
      (written : b.WriteRun key text t₁ outcome t₂) : SetRun b key text t outcome t₂

/-- A look-up is a way to be served. -/
theorem serves_look (b : FileBlobs) (t : FileTree) (key : String) :
    ∃ t', b.Serves t ⟨.get key, b.look t key⟩ t' :=
  ⟨_, Program.runs_run (fun _ _ => .done rfl) _ t⟩

theorem look_of_invalid (hkey : isValidKey key = false) :
    b.look t key = .error (.invalidKey key) := by
  have hrun : (b.get key).run = .done (.error (.invalidKey key)) :=
    serve_of_invalid (r := .get key) b hkey
  rw [look, hrun]
  rfl

/-- For a valid key, what it has is what its file holds. -/
theorem look_eq (hkey : isValidKey key = true) :
    b.look t key = lenient (b.path key) none ((t.read (b.path key)).map some) := by
  rw [look, run_get b hkey]
  rfl

end FileBlobs

/-! ## §4 Texts in memory -/

namespace MemoryBlobs

theorem get_set (m : MemoryBlobs) (key text k : String) :
    (m.set key text).get k = if key = k then some text else m.get k :=
  SortedMap.get?_insert ..

theorem get_delete (m : MemoryBlobs) (key k : String) :
    (m.delete key).get k = if key = k then none else m.get k :=
  SortedMap.get?_erase ..

end MemoryBlobs

end SettingProfiles
