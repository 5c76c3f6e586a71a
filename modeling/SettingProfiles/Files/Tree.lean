/-
SettingProfiles.Files.Tree — a tree of files in memory.

The tree says what every path below the root leads to, and answers the steps
of `FileStep` as a file system does: a name is looked up only in a
directory that exists, a name may be 255 bytes long and a path 4095, and the
names "." and ".." lead to the directory itself and to the one above it.

  §1 Trees
  §2 Paths   — where a path leads.
  §3 Steps
  §4 Lists   — what a directory contains.
-/
import SettingProfiles.Files.Path
import SettingProfiles.Files.Step
import SettingProfiles.SortedMap

namespace SettingProfiles

/-! ## §1 Trees -/

/-- What a path can lead to. -/
inductive FileNode where
  | directory
  /-- A file and its text, if its bytes are those of a text. -/
  | file (text : Option String)
  deriving DecidableEq

/-- The files and directories by their full paths, and the directory in which
paths begin that do not begin at the root. -/
structure FileTree where
  home : List String
  nodes : SortedMap FileNode
  deriving DecidableEq

namespace FileTree

/-- The full path of these names. -/
def fullPath (names : List String) : String := "/" ++ "/".intercalate names

def node? (t : FileTree) (names : List String) : Option FileNode :=
  if names = [] then some .directory else t.nodes.get? (fullPath names)

def put (t : FileTree) (names : List String) (node : FileNode) : FileTree :=
  { t with nodes := t.nodes.insert (fullPath names) node }

def drop (t : FileTree) (names : List String) : FileTree :=
  { t with nodes := t.nodes.erase (fullPath names) }

/-- Nothing but the directory in which paths begin, and those above it. -/
def empty (home : List String) : FileTree :=
  (List.range home.length).foldl (fun t k => t.put (home.take (k + 1)) .directory)
    ⟨home, SortedMap.empty⟩

/-! ## §2 Paths -/

/-- Where a path leads: to a node, or to a free place in a directory. -/
inductive Place where
  | node (names : List String) (node : FileNode)
  | free (names : List String)
  deriving DecidableEq

/-- The longest name of a file or directory, in bytes. -/
def longestName : Nat := 255

/-- Where the names lead from a directory. -/
def follow (t : FileTree) (directory : List String) : List String → Except FileError Place
  | [] => .ok (.node directory .directory)
  | name :: rest =>
    if name = "." then follow t directory rest
    else if name = ".." then follow t directory.dropLast rest
    else if longestName < name.utf8ByteSize then .error .nameTooLong
    else
      let names := directory ++ [name]
      match t.node? names with
      | some .directory => follow t names rest
      | some node => if rest.isEmpty then .ok (.node names node) else .error .notDirectory
      | none => if rest.isEmpty then .ok (.free names) else .error .notFound

/-- The directory in which a path begins. -/
def start (t : FileTree) (path : String) : List String :=
  if Path.isAbsolute path then [] else t.home

/-- Why no step takes a path, whatever the tree. -/
def refusal? (path : String) : Option FileError :=
  if path.contains '\x00' then some .nulInPath
  else if Path.longest < path.utf8ByteSize then some .nameTooLong
  else none

/-- Where a path leads. -/
def find (t : FileTree) (path : String) : Except FileError Place :=
  match refusal? path with
  | some e => .error e
  | none =>
    if path = "" then .error .notFound else t.follow (t.start path) (Path.names path)

/-! ## §3 Steps -/

/-- The text of a file. -/
def read (t : FileTree) (path : String) : Except FileError String := do
  match ← t.find path with
  | .node _ (.file (some text)) => return text
  | .node _ (.file none) => throw .notText
  | .node _ .directory => throw .isDirectory
  | .free _ => throw .notFound

/-- Why directories cannot be made past a file, with the names that follow it: it
stands where a directory is to be made, or, on a part of the way that was there
before, is no directory to go on from. -/
def obstacle (made : Bool) (rest : List String) : FileError :=
  if rest = [] || (made && rest ≠ ["."]) then .alreadyExists else .notDirectory

/-- Makes the directories that are missing on the way; `made` tells whether one has
been made already. The name before a "." at the end is never made. -/
def makeAlong (t : FileTree) (directory : List String) (made : Bool) :
    List String → Except FileError Unit × FileTree
  | [] => (.ok (), t)
  | name :: rest =>
    if name = "." then makeAlong t directory made rest
    else if name = ".." then makeAlong t directory.dropLast made rest
    else if longestName < name.utf8ByteSize then (.error .nameTooLong, t)
    else
      let names := directory ++ [name]
      match t.node? names with
      | some .directory => makeAlong t names made rest
      | some (.file _) => (.error (obstacle made rest), t)
      | none =>
        if rest = ["."] then (.error .notFound, t)
        else makeAlong (t.put names .directory) names true rest

/-- Makes a directory, with those above it that are missing. -/
def makeDirectory (t : FileTree) (path : String) : Except FileError Unit × FileTree :=
  match refusal? path with
  | some e => (.error e, t)
  | none => t.makeAlong (t.start path) false (Path.directoryNames path)

/-- Puts a file where the path leads, unless a directory is there. -/
def putFile (t : FileTree) (path : String) (text : Option String) :
    Except FileError Unit × FileTree :=
  match t.find path with
  | .error e => (.error e, t)
  | .ok (.node _ .directory) => (.error .isDirectory, t)
  | .ok (.node names _) | .ok (.free names) => (.ok (), t.put names (.file text))

/-- Takes a file away; a directory stays. -/
def remove (t : FileTree) (path : String) : Except FileError Unit × FileTree :=
  match t.find path with
  | .error e => (.error e, t)
  | .ok (.node _ .directory) => (.error .isDirectory, t)
  | .ok (.node names _) => (.ok (), t.drop names)
  | .ok (.free _) => (.error .notFound, t)

/-- Moves a file over what is at the target, unless that is a directory. -/
def rename (t : FileTree) (path target : String) : Except FileError Unit × FileTree :=
  match t.find path with
  | .error e => (.error e, t)
  | .ok (.node names (.file text)) =>
    match (t.drop names).putFile target text with
    | (.ok (), moved) => (.ok (), moved)
    | (.error e, _) => (.error e, t)
  | .ok (.node _ .directory) => (.error .isDirectory, t)
  | .ok (.free _) => (.error .notFound, t)

/-- The answer to a step, and the tree after it. -/
def answer : (s : FileStep) → StateM FileTree s.Answer
  | .read path => fun t => (t.read path, t)
  | .makeDirectory path => fun t => t.makeDirectory path
  | .write path text => fun t => t.putFile path (some text)
  | .rename path target => fun t => t.rename path target
  | .remove path => fun t => t.remove path

/-! ## §4 Lists -/

/-- Everything below the directory in which paths begin: the paths from there, with
a slash behind those of directories, increasing. -/
def list (t : FileTree) : List String :=
  let above := fullPath t.home ++ "/"
  (TextSet.of (t.nodes.toList.filterMap fun (path, node) =>
    if path.startsWith above then
      let name := (path.drop above.length).toString
      some (match node with | .directory => name ++ "/" | .file _ => name)
    else none)).items

end FileTree

end SettingProfiles
