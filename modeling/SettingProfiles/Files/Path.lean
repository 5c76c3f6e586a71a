/-
SettingProfiles.Files.Path — the texts that name files and directories.

A path is kept as it was written, since messages show it so. Joining puts
one path below another without looking at either more closely; the names in
a path are looked at only where a step is taken (`Files.Tree`).
-/
import SettingProfiles.Text.Pieces

namespace SettingProfiles.Path

/-- The path begins at the root. -/
def isAbsolute (path : String) : Bool := path.startsWith "/"

/-- The path below the base; one that begins at the root stands for itself. -/
def join (base path : String) : String :=
  if isAbsolute path then path
  else if base = "" || base.endsWith "/" then base ++ path
  else base ++ "/" ++ path

/-- The longest path that a step takes, in bytes. -/
def longest : Nat := 4095

/-- The pieces of a path between its slashes. -/
def pieces (path : String) : List String := (Text.pieces '/' path.toList).map String.ofList

/-- The names in a path, in order; "." names nothing, wherever it stands. -/
def plainNames (path : String) : List String :=
  (pieces path).filter fun name => name ≠ "" && name ≠ "."

/-- The path ends in the name ".", with or without slashes behind it. -/
def endsInDot (path : String) : Bool :=
  ((pieces path).filter (· ≠ "")).getLast? = some "."

/-- The names in a path to something that is there. The name "." at the end, or a
slash there, says that it is a directory, and is kept as a last ".". -/
def names (path : String) : List String :=
  plainNames path ++ if endsInDot path || path.endsWith "/" then ["."] else []

/-- The names in a path to a directory that may still be missing. A name "." at the
end is kept: it says that the directory is there already. -/
def directoryNames (path : String) : List String :=
  plainNames path ++ if endsInDot path then ["."] else []

end SettingProfiles.Path
