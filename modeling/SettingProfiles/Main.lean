/-
SettingProfiles.Main — the program.

The machine that acts on the files of this computer, and a call with the
arguments and the environment of the process. Nothing is decided here.
-/
import SettingProfiles.CommandLine.Run
import SettingProfiles.Document.RandomId

namespace SettingProfiles

/-- The error number behind a reported code, which may be the number or its negative
in 32 bits. -/
def errorNumber (code : UInt32) : Nat := code.toInt32.toInt.natAbs

/-- The cause of a failed step. -/
def FileError.ofReported : IO.Error → FileError
  | .noFileOrDirectory _ code description | .alreadyExists _ code description
  | .inappropriateType _ code description | .invalidArgument _ code description
  | .permissionDenied _ code description | .resourceExhausted _ code description
  | .noSuchThing _ code description | .otherError code description
  | .resourceBusy code description | .unsupportedOperation code description
  | .hardwareFault code description | .unsatisfiedConstraints code description
  | .illegalOperation code description =>
    .ofNumber (errorNumber code) description
  | e => .other (toString e)

/-- Takes a step on the files of this computer. -/
def takeStep (step : IO Unit) : IO (Except FileError Unit) := do
  try
    step
    return .ok ()
  catch e => return .error (.ofReported e)

/-- The text of a file of this computer. -/
def readText (path : String) : IO (Except FileError String) := do
  try
    match String.fromUTF8? (← IO.FS.readBinFile path) with
    | some text => return .ok text
    | none => return .error .notText
  catch e => return .error (.ofReported e)

/-- Makes a directory, with those above it that are missing. The empty path is that
of the directory in which the program runs, which is there. -/
def makeDirectory (path : String) : IO Unit := do
  unless path.isEmpty do IO.FS.createDirAll path

/-- A random id, which may be in use. -/
def drawRandomId : IO String := return randomId (← IO.getRandomBytes 16).toList

/-- This computer. Nobody is told of changes, since a call ends with its command. -/
def Machine.computer : Machine IO where
  step
    | .read path => readText path
    | .makeDirectory path => takeStep (makeDirectory path)
    | .write path text => takeStep (IO.FS.writeFile path text)
    | .rename path target => takeStep (IO.FS.rename path target)
    | .remove path => takeStep (IO.FS.removeFile path)
  freshId := Document.drawUnused drawRandomId
  publish _ := return ()

/-- The variables of the process. -/
def readVariables : IO Variables := do
  let home ← IO.getEnv "HOME"
  let configHome ← IO.getEnv "XDG_CONFIG_HOME"
  let config ← IO.getEnv "PROFILE_STORE_CONFIG"
  let dataDirectory ← IO.getEnv "PROFILE_STORE_DATA_DIR"
  return ⟨⟨home, configHome⟩, config, dataDirectory⟩

end SettingProfiles

open SettingProfiles in
def main (arguments : List String) : IO UInt32 := do
  let outcome ← runCall Machine.computer (← readVariables) arguments
  IO.print outcome.output
  match outcome.complaint with
  | some complaint => IO.eprintln ("Error: " ++ complaint)
  | none => if outcome.code = 2 then IO.eprint usageText
  return UInt32.ofNat outcome.code
