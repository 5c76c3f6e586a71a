/-
SettingProfiles.Store.Snapshot — what the store shows and announces.

A snapshot is a document without the settings: enough for pickers, and for
those who are told of changes.
-/
import SettingProfiles.Document.Codec

namespace SettingProfiles

/-- A view of a document. -/
structure Snapshot where
  current : String
  profiles : List ProfileSummary
  modeBindings : SortedMap String
  deriving DecidableEq

namespace Snapshot

def of (doc : Document) : Snapshot := ⟨doc.current, doc.summaries, doc.modeBindings⟩

def toJson (s : Snapshot) : Json :=
  .record
    [("currentProfileName", .text s.current),
     ("profiles", .array (s.profiles.map ProfileSummary.toJson)),
     ("modeBindings", Json.ofMap .text s.modeBindings)]

end Snapshot

/-- What the store announces: that the stored document is another one, or that
it was deleted. -/
inductive StoreEvent where
  | changed (snapshot : Snapshot)
  | reset
  deriving DecidableEq

end SettingProfiles
