/-
SettingProfiles.Files.Step — single steps on files.

Everything the library does with files is a program of these steps, each of
which succeeds or fails as a whole. Files hold texts; one that holds other
bytes can be replaced and removed, but not read.
-/
import SettingProfiles.Files.Failure
import SettingProfiles.Program

namespace SettingProfiles

/-- A step on the files of a machine. -/
inductive FileStep where
  | read (path : String)
  /-- Makes a directory, with those above it that are missing. -/
  | makeDirectory (path : String)
  /-- Writes a file anew. -/
  | write (path text : String)
  /-- Moves a file to another place, over what was there. -/
  | rename (path target : String)
  | remove (path : String)
  deriving DecidableEq

namespace FileStep

/-- What a step is answered with. -/
abbrev Answer : FileStep → Type
  | .read _ => Except FileError String
  | .makeDirectory _ | .write .. | .rename .. | .remove _ => Except FileError Unit

/-- Takes one step. -/
def take (s : FileStep) : Program FileStep FileStep.Answer s.Answer := Program.query s

end FileStep

end SettingProfiles
