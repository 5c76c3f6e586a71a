/-
SettingProfiles.Store.Upgrading — bringing a document up to date.

A document that was read is first repaired: profiles without an id of their
own get one, and a current name that is that of no profile is changed. Then
the pending upgrades are applied in order. Either every change is stored as
soon as it is made, so that what a failure leaves behind is a document from
which the next attempt goes on; or nothing is stored, and whoever asked
stores the result at once. A document that needs neither repair nor upgrade
passes through without a call.
-/
import SettingProfiles.Store.Effect

namespace SettingProfiles

namespace Document

/-- Nothing needs repair: each profile has an id of its own, and the current name
is that of a profile, if there is any. -/
def isNormal (doc : Document) : Bool := doc.unidentified.isEmpty && !doc.currentDangles

/-- The document with everything repaired that `isNormal` looks at. -/
def normalise {m : Type → Type} [Monad m] (fresh : List String → m String)
    (doc : Document) : m Document := do
  return (← doc.assignIds fresh).repairCurrent

end Document

namespace Procedure

/-- The old values of these settings, each looked up in turn. -/
def readLegacy (keys : List String) : Procedure LegacyValues :=
  keys.foldlM (fun values key => do
    match ← legacy key with
    | some value => return values.insert key value
    | none => return values) .empty

/-- Stores the document. -/
def persist (doc : Document) : Procedure Unit := set doc.encode

end Procedure

/-- A document that is up to date, the upgrades that were applied to it, and how
often it was stored on the way. -/
structure Upgraded where
  document : Document
  applied : List Upgrade
  writes : Nat
  deriving DecidableEq

namespace Document

/-- Applies one upgrade and records it in the document. -/
def applyUpgrade (doc : Document) (u : Upgrade) : Procedure Document := do
  let legacy ← Procedure.readLegacy u.legacyKeys
  match u.apply legacy doc with
  | .ok (_, filled) => return filled.markApplied u.name
  | .error e => throw (.upgrade u e)

/-- Brings the document up to date and stores it after every change. -/
def ensureUpgraded (doc : Document) : Procedure Upgraded := do
  let repaired ← doc.normalise Procedure.freshId
  unless doc.isNormal do Procedure.persist repaired
  let final ← repaired.pending.foldlM (fun d u => do
    let next ← d.applyUpgrade u
    Procedure.persist next
    return next) repaired
  return {
    document := final
    applied := repaired.pending
    writes := (if doc.isNormal then 0 else 1) + repaired.pending.length }

/-- Brings the document up to date without storing it. -/
def upgradeDetached (doc : Document) : Procedure Upgraded := do
  let repaired ← doc.normalise Procedure.freshId
  let final ← repaired.pending.foldlM applyUpgrade repaired
  return { document := final, applied := repaired.pending, writes := 0 }

end Document

end SettingProfiles
