/-
SettingProfiles.Toml.Table — how statements make up tables.

A text builds its tables piece by piece: a header opens a table, a dotted
key makes the tables on its way, and what follows adds to them. Where a
table comes from decides who may add to it. One that a header opened cannot
be opened again or be entered by a dotted key; one made on the way to a
header can still be opened; one made by a dotted key can only be added to by
dotted keys. Values, arrays and braces are closed once they are written.
-/
import SettingProfiles.SortedMap
import SettingProfiles.Toml.Basic

namespace SettingProfiles.Toml

/-- What made a table. -/
inductive Origin where
  /-- A header of its own, or the beginning of the text. -/
  | header
  /-- The header of a table below it. -/
  | implied
  | dottedKey
  deriving DecidableEq

/-- What a key of an unfinished table stands for. -/
inductive Entry where
  | value (v : Toml)
  | table (origin : Origin) (entries : List (String × Entry))
  /-- The tables that headers in double brackets have opened, in order. -/
  | tables (items : List (List (String × Entry)))

/-- The keys of an unfinished table, increasing. -/
abbrev Entries : Type := List (String × Entry)

namespace Entries

/-- Changes the table at the end of a way of keys, making the tables that are
missing. In an array of tables the way leads to the last one. -/
def within (dotted : Bool) (change : Origin → Entries → Option Entries) :
    List String → Origin → Entries → Option Entries
  | [], origin, entries => change origin entries
  | key :: rest, _, entries =>
    match Bindings.find? key entries with
    | none => do
      let origin : Origin := if dotted then .dottedKey else .implied
      let inner ← within dotted change rest origin []
      return Bindings.put key (.table origin inner) entries
    | some (.table origin inner) =>
      if dotted && origin = .header then none
      else do
        let inner ← within dotted change rest origin inner
        return Bindings.put key (.table origin inner) entries
    | some (.tables items) => do
      let last ← within dotted change rest .header (items.getLast?.getD [])
      return Bindings.put key (.tables (items.dropLast ++ [last])) entries
    | some (.value _) => none

/-- Opens a table by its header. -/
def openTable (key : String) (_ : Origin) (entries : Entries) : Option Entries :=
  match Bindings.find? key entries with
  | none => some (Bindings.put key (.table .header []) entries)
  | some (.table .implied inner) => some (Bindings.put key (.table .header inner) entries)
  | some _ => none

/-- Opens one more table of an array of tables. -/
def openItem (key : String) (_ : Origin) (entries : Entries) : Option Entries :=
  match Bindings.find? key entries with
  | none => some (Bindings.put key (.tables [[]]) entries)
  | some (.tables items) => some (Bindings.put key (.tables (items ++ [[]])) entries)
  | some _ => none

/-- Gives a new key its value. A table that a dotted key leads to must have been
made by one. -/
def addValue (dotted : Bool) (key : String) (value : Toml) (origin : Origin)
    (entries : Entries) : Option Entries :=
  if dotted && origin ≠ .dottedKey then none
  else
    match Bindings.find? key entries with
    | none => some (Bindings.put key (.value value) entries)
    | some _ => none

/-- Gives a key, perhaps a dotted one, its value in an open table. -/
def assign (path : List String) (value : Toml) (origin : Origin) (entries : Entries) :
    Option Entries :=
  match path.getLast? with
  | none => none
  | some key =>
    within true (addValue (!path.dropLast.isEmpty) key value) path.dropLast origin entries

end Entries

/-! ## Finished tables -/

mutual

/-- The value of a finished entry. -/
def Entry.finish : Entry → Toml
  | .value v => v
  | .table _ entries => .table (finishEntries entries)
  | .tables items => .array (finishItems items)

def finishEntries : List (String × Entry) → List (String × Toml)
  | [] => []
  | (key, entry) :: rest => (key, entry.finish) :: finishEntries rest

def finishItems : List (List (String × Entry)) → List Toml
  | [] => []
  | entries :: rest => .table (finishEntries entries) :: finishItems rest

end

/-- The table in braces that these assignments make. -/
def inlineTable? (assignments : List (List String × Toml)) : Option Toml := do
  let entries ← assignments.foldlM (fun es (path, value) => Entries.assign path value .header es) []
  return .table (finishEntries entries)

/-! ## Statements -/

/-- A line of a text that says something. -/
inductive Statement where
  | header (path : List String)
  /-- A header in double brackets. -/
  | itemHeader (path : List String)
  | assignment (path : List String) (value : Toml)

/-- The tables so far, and the way to the one that is open. -/
structure Draft where
  location : List String
  entries : Entries

namespace Draft

/-- Nothing has been said yet. -/
def empty : Draft := ⟨[], []⟩

/-- The draft after one more statement. -/
def add (d : Draft) : Statement → Option Draft
  | .header path => do
    let key ← path.getLast?
    let entries ← Entries.within false (Entries.openTable key) path.dropLast .header d.entries
    return ⟨path, entries⟩
  | .itemHeader path => do
    let key ← path.getLast?
    let entries ← Entries.within false (Entries.openItem key) path.dropLast .header d.entries
    return ⟨path, entries⟩
  | .assignment path value => do
    let entries ← Entries.within false (Entries.assign path value) d.location .header d.entries
    return { d with entries := entries }

end Draft

/-- The table that the statements make. -/
def ofStatements? (statements : List Statement) : Option Toml := do
  let d ← statements.foldlM Draft.add Draft.empty
  return .table (finishEntries d.entries)

end SettingProfiles.Toml
