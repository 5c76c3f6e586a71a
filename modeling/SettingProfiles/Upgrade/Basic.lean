/-
SettingProfiles.Upgrade.Basic — the upgrades of a document.

An upgrade copies settings that used to be global into every profile that
has no value of its own. It never replaces or removes a value, so applying
it once more changes nothing. Whether an upgrade has been applied is
recorded in the document under the upgrade's name.
-/
import SettingProfiles.Document.Basic
import SettingProfiles.Upgrade.Legacy

namespace SettingProfiles

/-! ## Filling settings in -/

namespace Document

/-- How many profiles have no value for the setting. -/
def lacking (doc : Document) (key : String) : Nat :=
  (doc.profiles.values.filter fun p => !p.settings.contains key).length

/-- Gives the setting to every profile that has no value for it. -/
def fillMissing (doc : Document) (key : String) (value : Setting) : Document :=
  { doc with
    profiles := doc.profiles.mapValues fun _ p =>
      if p.settings.contains key then p
      else { p with settings := p.settings.insert key value } }

end Document

/-! ## Upgrades -/

/-- The upgrades, named for the settings they move. -/
inductive Upgrade where
  | rateLimit
  | diffSettings
  deriving DecidableEq

namespace Upgrade

/-- All upgrades, in the order of their application. -/
def all : List Upgrade := [.rateLimit, .diffSettings]

/-- The name under which the document records the upgrade. -/
def name : Upgrade → String
  | .rateLimit => "rateLimitSecondsMigrated"
  | .diffSettings => "diffSettingsMigrated"

def description : Upgrade → String
  | .rateLimit => "copy the global rate limit into every profile"
  | .diffSettings => "copy the global diff settings into every profile"

/-- The old global settings that the upgrade looks at. -/
def legacyKeys : Upgrade → List String
  | .rateLimit => [SettingName.rateLimitSeconds]
  | .diffSettings => [SettingName.diffEnabled, SettingName.fuzzyMatchThreshold]

/-- The values the upgrade gives to profiles without one, by setting. -/
def fills (legacy : LegacyValues) : Upgrade → List (String × Setting)
  | .rateLimit => [(SettingName.rateLimitSeconds, legacy.rateLimit)]
  | .diffSettings =>
    [(SettingName.diffEnabled, legacy.diffEnabled),
     (SettingName.fuzzyMatchThreshold, legacy.fuzzyThreshold)]

/-- Fills the settings in one after the other, and counts the values added. -/
def fillAll (doc : Document) : List (String × Setting) → Nat × Document
  | [] => (0, doc)
  | (key, value) :: rest =>
    let (more, filled) := fillAll (doc.fillMissing key value) rest
    (doc.lacking key + more, filled)

/-- The document with the upgrade's settings filled in, and whether anything was
added. A document that is not valid is refused. The upgrade is not recorded. -/
def apply (u : Upgrade) (legacy : LegacyValues) (doc : Document) :
    Except DocumentError (Bool × Document) := do
  doc.validate
  let (added, filled) := fillAll doc (u.fills legacy)
  return (0 < added, filled)

end Upgrade

namespace Document

/-- The upgrades that the document does not record as applied. -/
def pending (doc : Document) : List Upgrade :=
  Upgrade.all.filter fun u => !doc.isApplied u.name

/-- The name of the profile in a new document. -/
def defaultProfileName : String := "default"

/-- A new document: one profile without settings, and no upgrade pending. -/
def initial {m : Type → Type} [Monad m] (fresh : List String → m String) : m Document := do
  let id ← fresh []
  return {
    current := defaultProfileName
    profiles := SortedMap.empty.insert defaultProfileName ⟨id, .empty⟩
    modeBindings := .empty
    upgradeFlags := SortedMap.ofList (Upgrade.all.map fun u => (u.name, true)) }

end Document

end SettingProfiles
