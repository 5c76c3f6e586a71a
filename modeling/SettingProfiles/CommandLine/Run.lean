/-
SettingProfiles.CommandLine.Run — calls from the command line.

A call opens the store that its configuration describes, runs one command of
a user interface and prints the answer as JSON. What goes wrong before there
is an answer is said in one line. The machine is a parameter, as everywhere.
-/
import SettingProfiles.CommandLine.Arguments
import SettingProfiles.Machine
import SettingProfiles.Session
import SettingProfiles.Setting.Typed

namespace SettingProfiles

/-! ## Outcomes -/

/-- What a call leaves behind: the exit code, what is printed, and what is said of
a failure that has no answer. -/
structure Outcome where
  code : Nat
  output : String
  complaint : Option String
  deriving DecidableEq

namespace Outcome

/-- The exit code tells whether the command succeeded. -/
def answered (result : CommandResult Json) : Outcome :=
  ⟨if result.success then 0 else 1, (result.toJson id).pretty ++ "\n", none⟩

def failed (complaint : String) : Outcome := ⟨1, "", some complaint⟩

end Outcome

/-- The name of the program and its version. -/
def versionText : String := "profile-store 0.1.0\n"

/-- How the program is called. -/
def usageText : String :=
  "Usage: profile-store [OPTIONS] <COMMAND>\n\nCommands: " ++ ", ".intercalate Request.names ++ "\n"

def Halt.outcome : Halt → Outcome
  | .help => ⟨0, usageText, none⟩
  | .version => ⟨0, versionText, none⟩
  | .invalid => ⟨2, "", none⟩

/-! ## Settings -/

/-- The setting that a text `KEY=VALUE` gives. -/
def pairOf (pair : String) : Except String (String × Setting) :=
  let key := pair.toList.takeWhile (· ≠ '=')
  match pair.toList.dropWhile (· ≠ '=') with
  | [] => .error ("invalid --set " ++ Text.quoted pair ++ ": expected KEY=VALUE")
  | _ :: value =>
    if key.isEmpty then .error ("invalid --set " ++ Text.quoted pair ++ ": empty key")
    else .ok (String.ofList key, Setting.ofTyped (String.ofList value))

/-- The settings that texts `KEY=VALUE` give; of two for a key the later counts. -/
def settingsOfPairs (pairs : List String) : Except String SettingMap :=
  (pairs.mapM pairOf).map SortedMap.ofList

/-! ## Running -/

/-- The command that a request stands for, or what keeps it from being run. -/
def Request.command {m : Type → Type} [Monad m] (machine : Machine m) :
    Request → m (Except String Command)
  | .list => pure (.ok .listProfiles)
  | .describe name => pure (.ok (.getProfile name))
  | .save name pairs => pure ((settingsOfPairs pairs).map (.saveProfile name))
  | .load name => pure (.ok (.loadProfile name))
  | .delete name => pure (.ok (.deleteProfile name))
  | .makeCurrent name => pure (.ok (.setCurrent name))
  | .current => pure (.ok .getCurrent)
  | .contains name => pure (.ok (.hasProfile name))
  | .bindMode mode id => pure (.ok (.bindMode mode id))
  | .modeBinding mode => pure (.ok (.modeBinding mode))
  | .exportDocument => pure (.ok .exportDocument)
  | .importFile path => do
    match ← machine.step (.read path) with
    | .error _ => return .error ("failed to read " ++ path)
    | .ok text =>
      match Document.decode? text with
      | some doc => return .ok (.importDocument doc)
      | none => return .error (path ++ " is not a profile document")
  | .reset => pure (.ok .reset)

/-- Runs a request in an installation. -/
def Request.run {m : Type → Type} [Monad m] (machine : Machine m) (i : Installation)
    (request : Request) : m Outcome := do
  match ← request.command machine with
  | .error complaint => return .failed complaint
  | .ok command =>
    let (result, _) ← machine.run i (command.run.run .empty)
    return .answered result

/-- Opens the installation that a configuration describes. -/
def Config.installation (c : Config) (env : Environment) : Except ConfigError Installation := do
  return ⟨⟨← c.directory env⟩, c.legacy⟩

namespace Invocation

/-- Loads the configuration of a call, in which the call may replace the directory. -/
def loadConfig {m : Type → Type} [Monad m] (machine : Machine m) (env : Environment)
    (call : Invocation) : m (Except String Config) := do
  let path : Except ConfigError String :=
    match call.config with
    | some path => .ok path
    | none => env.configFile
  match path with
  | .error _ => return .error "no --config given and no platform config dir"
  | .ok path =>
    match ← (Config.load path).run machine.step with
    | .error _ => return .error ("failed to load config from " ++ path)
    | .ok c => return .ok { c with dataDirectory := call.dataDirectory <|> c.dataDirectory }

/-- Runs a call whose arguments are in order. -/
def run {m : Type → Type} [Monad m] (machine : Machine m) (env : Environment)
    (call : Invocation) : m Outcome := do
  match ← call.loadConfig machine env with
  | .error complaint => return .failed complaint
  | .ok c =>
    match c.installation env with
    | .error _ => return .failed "failed to open profile store"
    | .ok i => call.request.run machine i

end Invocation

/-- Runs a call from the command line. -/
def runCall {m : Type → Type} [Monad m] (machine : Machine m) (vars : Variables)
    (arguments : List String) : m Outcome :=
  match Invocation.read vars arguments with
  | .error halt => pure halt.outcome
  | .ok call => call.run machine vars.environment

end SettingProfiles
