/-
SettingProfiles.Config — the configuration of an installation.

The configuration file is in TOML. Its table `store` says where the document
is kept and how much is logged; its table `legacy` holds the settings that
used to be global. Everything may be missing, the file included. Where no
directory is configured, the document is kept below the directory of the
configuration, which the environment determines.

  §1 Contents — what a file says.
  §2 Places   — what the environment says.
  §3 Loading
-/
import SettingProfiles.Files.Path
import SettingProfiles.Files.Step
import SettingProfiles.Setting.Basic
import SettingProfiles.Toml.Reader

namespace SettingProfiles

/-! ## §1 Contents -/

/-- A value in TOML as a setting: an array must be one of texts, and tables and
dates are no settings. -/
def Setting.ofToml? : Toml → Option Setting
  | .bool b => some (.bool b)
  | .integer i => some (.integer i)
  | .float x => some (.float x)
  | .text s => some (.text s)
  | .array items => (items.mapM Toml.asText?).map fun texts => .textSet (.of texts)
  | .moment _ | .table _ => none

/-- A setting by its key. -/
def Setting.ofMember? (member : String × Toml) : Option (String × Setting) :=
  (Setting.ofToml? member.2).map fun value => (member.1, value)

/-- A table of settings. -/
def SettingMap.ofToml? (t : Toml) : Option SettingMap := do
  return SortedMap.ofList (← (← t.tableMembers?).mapM Setting.ofMember?)

/-- The configuration of an installation. -/
structure Config where
  /-- The directory in which the document is kept. -/
  dataDirectory : Option String
  logLevel : String
  legacy : SettingMap
  deriving DecidableEq

namespace Config

/-- The configuration where nothing is said. -/
def default : Config := ⟨none, "info", .empty⟩

instance : Inhabited Config := ⟨default⟩

/-- The values of a section by the names of its keys. A section may also be an array
of the values in order; further values are passed over. -/
def section? (names : List String) : Toml → Option (List (Option Toml))
  | .array items => some ((List.range names.length).map fun k => items[k]?)
  | t => t.tableMembers?.map fun members => names.map fun name => Bindings.find? name members

/-- A value that may be missing. -/
def optional {α : Type} (read? : Toml → Option α) : Option Toml → Option (Option α)
  | none => some none
  | some value => (read? value).map some

/-- The directory and the log level of the section `store`. -/
def storeSection? (t : Toml) : Option (Option String × String) := do
  match ← section? ["data_dir", "log_level"] t with
  | [directory, level] =>
    let directory ← optional Toml.asText? directory
    let level ← optional Toml.asText? level
    return (directory, level.getD default.logLevel)
  | _ => none

/-- The configuration that a table describes. -/
def ofToml? (t : Toml) : Option Config := do
  match ← section? ["store", "legacy"] t with
  | [store, legacy] =>
    let store ← optional storeSection? store
    let legacy ← optional SettingMap.ofToml? legacy
    let (directory, level) := store.getD (default.dataDirectory, default.logLevel)
    return ⟨directory, level, legacy.getD .empty⟩
  | _ => none

/-- The configuration that a text describes. -/
def decode? (text : String) : Option Config := (Toml.read? text).bind ofToml?

end Config

/-! ## §2 Places -/

/-- The variables that tell where configurations are kept, as far as they are set. -/
structure Environment where
  home : Option String
  configHome : Option String
  deriving DecidableEq

/-- Why there is no configuration. -/
inductive ConfigError where
  /-- The environment does not tell where configurations are kept. -/
  | noDirectory
  | file (path : String) (error : FileError)
  /-- The text is not that of a configuration. -/
  | malformed
  deriving DecidableEq

namespace ConfigError

/-- What is said of a text that is not that of a configuration. -/
def malformedReason : String := "the text is not that of a configuration"

def message : ConfigError → String
  | .noDirectory => "could not determine platform config directory"
  | .file path error => "I/O error accessing config at " ++ path ++ ": " ++ error.message
  | .malformed => "failed to parse config TOML: " ++ malformedReason

end ConfigError

namespace Environment

/-- The directory of the configuration. -/
def configDirectory (env : Environment) : Except ConfigError String :=
  let base :=
    match env.configHome with
    | some base => some base
    | none => env.home.map fun home => Path.join home ".config"
  match base with
  | some base => .ok (Path.join base "profile-store")
  | none => .error .noDirectory

/-- The file of the configuration. -/
def configFile (env : Environment) : Except ConfigError String := do
  return Path.join (← env.configDirectory) "config.toml"

end Environment

/-- The directory in which the document is kept: as configured, or else below that
of the configuration. -/
def Config.directory (c : Config) (env : Environment) : Except ConfigError String :=
  match c.dataDirectory with
  | some directory => .ok directory
  | none => do return Path.join (← env.configDirectory) "data"

/-! ## §3 Loading -/

/-- The configuration in the file at the path; without the file, the default. -/
def Config.load (path : String) :
    Program FileStep FileStep.Answer (Except ConfigError Config) := do
  match ← FileStep.take (.read path) with
  | .ok text =>
    match Config.decode? text with
    | some c => return .ok c
    | none => return .error .malformed
  | .error .notFound => return .ok Config.default
  | .error e => return .error (.file path e)

end SettingProfiles
