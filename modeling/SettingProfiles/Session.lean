/-
SettingProfiles.Session — the commands of a user interface.

A session joins the store with the overrides, which live as long as the
session. Every command is answered in one form, with data or with the text
of a failure (`CommandResult`). The overrides of a profile are forgotten
once it has been deleted, and all of them once the store has been reset, so
that no override waits for an id that is gone.
-/
import SettingProfiles.Overrides
import SettingProfiles.Store.Operation
import SettingProfiles.Views

namespace SettingProfiles

/-- A command of a user interface. -/
inductive Command where
  | listProfiles
  | saveProfile (name : String) (settings : SettingMap)
  | loadProfile (name : String)
  | getProfile (name : String)
  | deleteProfile (name : String)
  | setCurrent (name : String)
  | getCurrent
  | hasProfile (name : String)
  | bindMode (mode id : String)
  | modeBinding (mode : String)
  | snapshot
  | exportDocument
  | importDocument (doc : Document)
  | reset
  /-- The value in force, given the global one. -/
  | resolve (profile setting : String) (global : Option Setting)
  | setOverride (profile setting : String) (value : Setting)
  | toggleOverride (profile setting : String) (global : Option Setting)
  | isOverridden (profile setting : String)
  | overriddenSettings (profile : String)
  deriving DecidableEq

namespace Command

/-- What a command does to the overrides and asks of the surroundings. -/
abbrev Run (α : Type) : Type := StateT Overrides (Program Effect Effect.Answer) α

/-- Performs an operation of the store; if it succeeds, its result is shown and
changes the overrides. -/
def perform (op : Operation) (view : op.Result → Json)
    (adjust : op.Result → Overrides → Overrides) : Run (CommandResult Json) := do
  match ← op.program with
  | .ok result =>
    modify (adjust result)
    return .ok (view result)
  | .error e => return .failed e.message

/-- Performs an operation whose result is shown as it is. -/
def performPlain (op : Operation) : Run (CommandResult Json) :=
  perform op op.resultJson fun _ o => o

/-- Looks at the overrides or changes them, which never fails. -/
def override (f : Overrides → Json × Overrides) : Run (CommandResult Json) := do
  return .ok (← modifyGet f)

/-- The answer to a command. -/
def run : Command → Run (CommandResult Json)
  | .listProfiles =>
    perform .list
      (fun summaries => .array (List.map (fun s => (ProfileEntry.ofSummary s).toJson) summaries))
      fun _ o => o
  | .saveProfile name settings => performPlain (.save name settings)
  | .loadProfile name => performPlain (.load name)
  | .getProfile name =>
    perform (.profile name) (fun p => (ProfileDetail.mk name p.id p.settings).toJson)
      fun _ o => o
  | .deleteProfile name => perform (.delete name) (fun _ => .null) fun p o => o.forget p.id
  | .setCurrent name => performPlain (.setCurrent name)
  | .getCurrent => performPlain .current
  | .hasProfile name => performPlain (.contains name)
  | .bindMode mode id => performPlain (.bindMode mode id)
  | .modeBinding mode => performPlain (.modeBinding mode)
  | .snapshot => performPlain .snapshot
  | .exportDocument => performPlain .exportDocument
  | .importDocument doc => performPlain (.importDocument doc)
  | .reset => perform .reset (fun _ => .null) fun _ o => o.clear
  | .resolve profile setting global =>
    override fun o => (Json.ofOption Setting.toJson (o.resolve profile setting global), o)
  | .setOverride profile setting value =>
    override fun o => (.null, o.set profile setting value)
  | .toggleOverride profile setting global =>
    override fun o =>
      let toggled := o.toggle profile setting global
      (.bool (toggled.isOverridden profile setting), toggled)
  | .isOverridden profile setting =>
    override fun o => (.bool (o.isOverridden profile setting), o)
  | .overriddenSettings profile =>
    override fun o => (.array ((o.settings profile).map .text), o)

end Command

end SettingProfiles
