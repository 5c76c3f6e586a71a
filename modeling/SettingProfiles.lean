/-
SettingProfiles — named bundles of settings, stored as one document.
-/
import SettingProfiles.Channel
import SettingProfiles.Gate
import SettingProfiles.Main
import SettingProfiles.Proofs.Document.Drawing
import SettingProfiles.Proofs.Document.Layouts
import SettingProfiles.Proofs.Document.OwnText
import SettingProfiles.Proofs.Document.Removing
import SettingProfiles.Proofs.Document.Repairing
import SettingProfiles.Proofs.Files.Refinement
import SettingProfiles.Proofs.Gate.Admission
import SettingProfiles.Proofs.Overrides.History
import SettingProfiles.Proofs.Session.Overrides
import SettingProfiles.Proofs.Setting.Typed
import SettingProfiles.Proofs.Store.Accepting
import SettingProfiles.Proofs.Store.Announcements
import SettingProfiles.Proofs.Store.Batches
import SettingProfiles.Proofs.Store.Detached
import SettingProfiles.Proofs.Store.Importing
import SettingProfiles.Proofs.Store.KeptDocument
import SettingProfiles.Proofs.Store.Loading
import SettingProfiles.Proofs.Store.Permanence
import SettingProfiles.Proofs.Store.ReadBack
import SettingProfiles.Proofs.Store.Resuming
import SettingProfiles.Proofs.Store.Unreadable
import SettingProfiles.Proofs.Store.Usable
import SettingProfiles.Proofs.Upgrade.Applying
import SettingProfiles.Store.Memory
import SettingProfiles.Store.MemoryBlobs
