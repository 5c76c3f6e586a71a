/-
SettingProfiles.Views — what user interfaces are shown of profiles.

Three records in JSON: an entry of the profile list, a profile with its
settings, and the answer to a command, which says whether it succeeded and
carries either data or the text of an error. Where an object lacks the tag,
the data or the error, these are null; an array must have them all.
-/
import SettingProfiles.Document.Codec

namespace SettingProfiles

open Json (required withDefault nullable)

/-! ## Optional fields -/

/-- How an optional field is read: in an object it may be missing, in an array
it may only be null. -/
def Json.Fields.optional {α : Type} (fields : Json.Fields) (read? : Json → Option α) :
    Option Json → Option (Option α) :=
  match fields with
  | .named _ => withDefault none (nullable read?)
  | .listed _ => required (nullable read?)

/-! ## Profiles -/

/-- An entry of the profile list. -/
structure ProfileEntry where
  name : String
  id : String
  providerTag : Option String
  deriving DecidableEq

namespace ProfileEntry

def ofSummary (s : ProfileSummary) : ProfileEntry := ⟨s.name, s.id, s.providerTag⟩

def toJson (e : ProfileEntry) : Json :=
  .record [("name", .text e.name), ("id", .text e.id),
    ("providerTag", Json.ofOption .text e.providerTag)]

def ofJson? (j : Json) : Option ProfileEntry := do
  let fields ← Json.fields? ["name", "id", "providerTag"] j
  match fields.values with
  | [name, id, tag] =>
    let name ← required Json.asText? name
    let id ← required Json.asText? id
    let tag ← fields.optional Json.asText? tag
    return ⟨name, id, tag⟩
  | _ => none

end ProfileEntry

/-- A profile with all its settings. -/
structure ProfileDetail where
  name : String
  id : String
  settings : SettingMap
  deriving DecidableEq

namespace ProfileDetail

def toJson (d : ProfileDetail) : Json :=
  .record [("name", .text d.name), ("id", .text d.id), ("settings", SettingMap.toJson d.settings)]

def ofJson? (j : Json) : Option ProfileDetail := do
  match (← Json.fields? ["name", "id", "settings"] j).values with
  | [name, id, settings] =>
    let name ← required Json.asText? name
    let id ← required Json.asText? id
    let settings ← required SettingMap.ofJson? settings
    return ⟨name, id, settings⟩
  | _ => none

end ProfileDetail

/-! ## Answers -/

/-- The answer to a command. -/
structure CommandResult (α : Type) where
  success : Bool
  data : Option α
  error : Option String
  deriving DecidableEq

namespace CommandResult

variable {α : Type}

def ok (data : α) : CommandResult α := ⟨true, some data, none⟩

def failed (message : String) : CommandResult α := ⟨false, none, some message⟩

def toJson (write : α → Json) (r : CommandResult α) : Json :=
  .record [("success", .bool r.success), ("data", Json.ofOption write r.data),
    ("error", Json.ofOption .text r.error)]

def ofJson? (read? : Json → Option α) (j : Json) : Option (CommandResult α) := do
  let fields ← Json.fields? ["success", "data", "error"] j
  match fields.values with
  | [success, data, error] =>
    let success ← required Json.asBool? success
    let data ← fields.optional read? data
    let error ← fields.optional Json.asText? error
    return ⟨success, data, error⟩
  | _ => none

end CommandResult

end SettingProfiles
