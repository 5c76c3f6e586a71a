/-
SettingProfiles.Document.Basic — the stored document.

A document holds profiles by name, says which of them is current, binds
modes to profile ids, and records which upgrades have been applied. A
document is sound once it has a profile, no profile has the empty name, the
current name is that of a profile, and the ids are non-empty and all
different; the operations here say what breaks these rules and what repairs
them.

  §1 Profiles
  §2 Documents  — the type, and the check that cannot be repaired.
  §3 Ids        — fresh ids, and ids for the profiles that need one.
  §4 Operations — on one profile at a time.
  §5 Look-ups

Fresh ids come from outside. The operations that need one are written for
any monad with an action that, given the ids in use, yields another; from an
action that draws ids at random, `drawUnused` makes one.
-/
import SettingProfiles.Setting.Basic

namespace SettingProfiles

/-! ## §1 Profiles -/

/-- A bundle of settings with an id of its own, which outlives a change of name.
The id is empty in documents from the time before ids. -/
structure Profile where
  id : String
  settings : SettingMap
  deriving DecidableEq

namespace Profile

instance : Inhabited Profile := ⟨⟨"", .empty⟩⟩

/-- The service the profile talks to, if the setting is a text. -/
def providerTag? (p : Profile) : Option String :=
  (p.settings.get? SettingName.provider).bind Setting.asText?

/-- Equality of profiles, with `Setting.sameValue` on the settings. -/
def sameContent (p q : Profile) : Bool :=
  p.id == q.id && SettingMap.sameValues p.settings q.settings

end Profile

/-- What lists of profiles show of one. -/
structure ProfileSummary where
  name : String
  id : String
  providerTag : Option String
  deriving DecidableEq

/-! ## §2 Documents -/

/-- All that is stored: the current profile's name, the profiles, the profile
ids that modes are bound to, and the upgrades by name, true once applied. -/
structure Document where
  current : String
  profiles : SortedMap Profile
  modeBindings : SortedMap String
  upgradeFlags : SortedMap Bool
  deriving DecidableEq

/-- What a document or an operation on it can lack. -/
inductive DocumentError where
  | notFound (name : String)
  | lastProfile
  | emptyName
  | noProfiles
  deriving DecidableEq

def DocumentError.message : DocumentError → String
  | .notFound name => "profile not found: " ++ name
  | .lastProfile => "cannot delete the last remaining profile"
  | .emptyName => "profile name must not be empty"
  | .noProfiles => "document contains no profiles"

namespace Document

instance : Inhabited Document := ⟨⟨"", .empty, .empty, .empty⟩⟩

/-- Checks the rules that have no repair: there is a profile, and none has the
empty name. -/
def validate (doc : Document) : Except DocumentError Unit :=
  if doc.profiles.isEmpty then .error .noProfiles
  else if doc.profiles.contains "" then .error .emptyName
  else .ok ()

/-- Equality of documents, with `Setting.sameValue` on the settings. -/
def sameContent (d e : Document) : Bool :=
  d.current == e.current && d.modeBindings == e.modeBindings &&
    d.upgradeFlags == e.upgradeFlags && d.profiles.size == e.profiles.size &&
    (d.profiles.toList.zip e.profiles.toList).all fun (a, b) =>
      a.1 == b.1 && a.2.sameContent b.2

/-! ## §3 Ids -/

/-- The ids of the profiles, in the order of their names. -/
def ids (doc : Document) : List String := doc.profiles.values.map Profile.id

/-- The names of the profiles without an id of their own: the id is empty, or a
profile before it has the same. -/
def unidentified (doc : Document) : List String :=
  go [] doc.profiles.toList
where
  go (seen : List String) : List (String × Profile) → List String
    | [] => []
    | (name, p) :: rest =>
      if p.id = "" ∨ p.id ∈ seen then name :: go seen rest
      else go (p.id :: seen) rest

/-- Gives the profile of this name the id; a document without it stays as it is. -/
def withId (doc : Document) (name id : String) : Document :=
  match doc.profiles.get? name with
  | some p => { doc with profiles := doc.profiles.insert name { p with id := id } }
  | none => doc

/-- Gives each profile without an id of its own a fresh one, in the order of
their names. -/
def assignIds {m : Type → Type} [Monad m] (fresh : List String → m String)
    (doc : Document) : m Document :=
  doc.unidentified.foldlM (fun d name => do return d.withId name (← fresh d.ids)) doc

/-- Draws ids until one comes that is not in use. -/
def drawUnused {m : Type → Type} [Monad m] (draw : m String) (inUse : List String) : m String :=
  repeatM (fun () => do
    let id ← draw
    return if id ∈ inUse then .inl () else .inr id) ()

/-- The first id of a supply that is not in use, and the supply behind it; none
if every id of the supply is in use. -/
def freshId? (inUse : List String) : List String → Option (String × List String)
  | [] => none
  | id :: supply => if id ∈ inUse then freshId? inUse supply else some (id, supply)

/-- `freshId?` as an action on a supply. -/
def drawId (inUse : List String) : StateT (List String) Option String := freshId? inUse

/-! ## §4 Operations -/

/-- Makes the first profile current if the current name is that of none. -/
def repairCurrent (doc : Document) : Document :=
  if doc.profiles.contains doc.current then doc
  else
    match doc.profiles.keys with
    | first :: _ => { doc with current := first }
    | [] => doc

/-- The current name is that of no profile, and there is one to take its place. -/
def currentDangles (doc : Document) : Bool :=
  !doc.profiles.contains doc.current && !doc.profiles.isEmpty

/-- The outcome of storing a profile. -/
structure Upserted where
  document : Document
  id : String
  created : Bool
  deriving DecidableEq

/-- Stores the settings under the name. A profile keeps its id; a new one, or one
without an id, gets a fresh one. -/
def upsert {m : Type → Type} [Monad m] (fresh : List String → m String) (doc : Document)
    (name : String) (settings : SettingMap) : m (Except DocumentError Upserted) :=
  if name = "" then pure (.error .emptyName)
  else do
    let id ←
      match (doc.profiles.get? name).map Profile.id with
      | some id => if id = "" then fresh doc.ids else pure id
      | none => fresh doc.ids
    return .ok
      { document := { doc with profiles := doc.profiles.insert name ⟨id, settings⟩ }
        id := id
        created := !doc.profiles.contains name }

/-- Removes a profile, which may not be the only one. If it was current, the
first of the others becomes current. -/
def remove (doc : Document) (name : String) : Except DocumentError (Profile × Document) :=
  match doc.profiles.get? name with
  | none => .error (.notFound name)
  | some p =>
    if doc.profiles.size = 1 then .error .lastProfile
    else .ok (p, repairCurrent { doc with profiles := doc.profiles.erase name })

def setCurrent (doc : Document) (name : String) : Except DocumentError Document :=
  if doc.profiles.contains name then .ok { doc with current := name }
  else .error (.notFound name)

/-- Binds the mode to the id, which need not be that of a profile. -/
def bindMode (doc : Document) (mode id : String) : Document :=
  { doc with modeBindings := doc.modeBindings.insert mode id }

/-- The upgrade of this name is recorded as applied. -/
def isApplied (doc : Document) (upgrade : String) : Bool :=
  (doc.upgradeFlags.get? upgrade).getD false

def markApplied (doc : Document) (upgrade : String) : Document :=
  { doc with upgradeFlags := doc.upgradeFlags.insert upgrade true }

/-! ## §5 Look-ups -/

def contains (doc : Document) (name : String) : Bool := doc.profiles.contains name

def profile (doc : Document) (name : String) : Except DocumentError Profile :=
  match doc.profiles.get? name with
  | some p => .ok p
  | none => .error (.notFound name)

/-- The first profile with the id, and its name. -/
def profileById? (doc : Document) (id : String) : Option (String × Profile) :=
  doc.profiles.toList.find? fun e => e.2.id = id

/-- The profiles as lists show them, in the order of their names. -/
def summaries (doc : Document) : List ProfileSummary :=
  doc.profiles.toList.map fun (name, p) => ⟨name, p.id, p.providerTag?⟩

/-- A value that a profile has for the setting: that of the preferred profile, or
else that of the first profile that has one. -/
def existingValue? (doc : Document) (key : String) (preferred : Option String) :
    Option Setting :=
  let own := do
    let p ← doc.profiles.get? (← preferred)
    p.settings.get? key
  match own with
  | some v => some v
  | none => doc.profiles.values.findSome? fun p => p.settings.get? key

end Document

end SettingProfiles
