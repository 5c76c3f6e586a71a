/-
SettingProfiles.Document.Codec — documents in JSON.

Documents, profiles and summaries are records (`Json.Fields`); profiles,
settings, bindings and flags are maps. When a document is read, the ids, the
settings of a profile, the bindings and the flags may be missing, so that
documents written before these existed can be read.
-/
import SettingProfiles.Document.Basic
import SettingProfiles.Json.Printer
import SettingProfiles.Json.Reader
import SettingProfiles.Setting.Codec

namespace SettingProfiles

open Json (required withDefault nullable)

/-! ## Profiles -/

namespace Profile

def toJson (p : Profile) : Json :=
  .record [("id", .text p.id), ("settingValues", SettingMap.toJson p.settings)]

def ofJson? (j : Json) : Option Profile := do
  match (← Json.fields? ["id", "settingValues"] j).values with
  | [id, settings] =>
    let id ← withDefault "" Json.asText? id
    let settings ← withDefault .empty SettingMap.ofJson? settings
    return ⟨id, settings⟩
  | _ => none

end Profile

/-! ## Summaries -/

namespace ProfileSummary

/-- The tag is left out if there is none. -/
def toJson (s : ProfileSummary) : Json :=
  .record ([("name", .text s.name), ("id", .text s.id)] ++
    (match s.providerTag with
      | some tag => [("providerTag", .text tag)]
      | none => []))

def ofJson? (j : Json) : Option ProfileSummary := do
  match (← Json.fields? ["name", "id", "providerTag"] j).values with
  | [name, id, tag] =>
    let name ← required Json.asText? name
    let id ← required Json.asText? id
    let tag ← withDefault none (nullable Json.asText?) tag
    return ⟨name, id, tag⟩
  | _ => none

end ProfileSummary

/-! ## Documents -/

namespace Document

def toJson (doc : Document) : Json :=
  .record
    [("currentProfileName", .text doc.current),
     ("profiles", Json.ofMap Profile.toJson doc.profiles),
     ("modeBindings", Json.ofMap .text doc.modeBindings),
     ("migrationFlags", Json.ofMap .bool doc.upgradeFlags)]

def ofJson? (j : Json) : Option Document := do
  match (← Json.fields? ["currentProfileName", "profiles", "modeBindings", "migrationFlags"]
      j).values with
  | [current, profiles, bindings, flags] =>
    let current ← required Json.asText? current
    let profiles ← required (Json.map? Profile.ofJson?) profiles
    let bindings ← withDefault .empty (Json.map? Json.asText?) bindings
    let flags ← withDefault .empty (Json.map? Json.asBool?) flags
    return ⟨current, profiles, bindings, flags⟩
  | _ => none

/-- The text in which a document is stored. -/
def encode (doc : Document) : String := Json.pretty doc.toJson

/-- The document that a stored text holds. -/
def decode? (text : String) : Option Document := (Json.read? text).bind ofJson?

end Document

end SettingProfiles
