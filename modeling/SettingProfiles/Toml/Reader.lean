/-
SettingProfiles.Toml.Reader — reading TOML texts.

The language is TOML 1.0; a byte order mark at the beginning of the text is
left out. Reading has two stages: the text is a list of statements, headers
and assignments, and the statements make up one table (`Toml.Table`).

  §1 Gaps       — blanks, comments and line ends.
  §2 Keys
  §3 Values
  §4 Statements — and whole texts.

As with JSON, the scanners take fuel: each spends one unit per call and is
called at most twice for each character.
-/
import SettingProfiles.Toml.Number
import SettingProfiles.Toml.Table
import SettingProfiles.Toml.Text

namespace SettingProfiles.Toml

/-! ## §1 Gaps -/

/-- The rest behind a comment, if one is next. -/
def skipComment (cs : List Char) : List Char :=
  match cs with
  | '#' :: rest => rest.dropWhile isPlain
  | _ => cs

/-- The rest of the text behind the rest of a line, which may only be blanks and a
comment. -/
def lineEnd? (cs : List Char) : Option (List Char) :=
  match skipComment (skipBlanks cs) with
  | [] => some []
  | rest => newline? rest

/-- Leaves out blanks, comments and line ends, in arrays and between statements. -/
def skipGaps : Nat → List Char → List Char
  | 0, cs => cs
  | fuel + 1, cs =>
    match newline? (skipComment (skipBlanks cs)) with
    | some rest => skipGaps fuel rest
    | none => skipBlanks cs

/-! ## §2 Keys -/

/-- A character of keys without quotes. -/
def isBare (c : Char) : Bool := c.isAlphanum || c = '-' || c = '_'

/-- One key, bare or in quotes. -/
def simpleKey? (cs : List Char) : Option (String × List Char) :=
  match cs with
  | '"' :: _ | '\'' :: _ => (shortText? cs).map fun (chars, after) => (String.ofList chars, after)
  | _ =>
    let bare := cs.takeWhile isBare
    if bare.isEmpty then none else some (String.ofList bare, cs.dropWhile isBare)

/-- The keys of a dotted key, with blanks around them. -/
def keys? : Nat → List Char → Option (List String × List Char)
  | 0, _ => none
  | fuel + 1, cs => do
    let (key, cs) ← simpleKey? (skipBlanks cs)
    match skipBlanks cs with
    | '.' :: rest =>
      let (more, after) ← keys? fuel rest
      return (key :: more, after)
    | after => return ([key], after)

/-- A key, perhaps a dotted one. -/
def key? (cs : List Char) : Option (List String × List Char) :=
  (keys? cs.length cs).filter fun (path, _) => path.length ≤ depthLimit

/-! ## §3 Values -/

mutual

/-- The value at the beginning of the text. Arrays and braces may still be nested
as deep as `room` says. -/
def value? : (fuel room : Nat) → List Char → Option (Toml × List Char)
  | 0, _, _ => none
  | fuel + 1, room, cs =>
    match cs with
    | 't' :: 'r' :: 'u' :: 'e' :: rest => some (.bool true, rest)
    | 'f' :: 'a' :: 'l' :: 's' :: 'e' :: rest => some (.bool false, rest)
    | '"' :: _ | '\'' :: _ =>
      (text? cs).map fun (chars, after) => (.text (String.ofList chars), after)
    | '[' :: rest =>
      match room with
      | 0 => none
      | room + 1 => (items? fuel room rest).map fun (items, after) => (.array items, after)
    | '\x7b' :: rest =>
      match room with
      | 0 => none
      | room + 1 =>
        match skipBlanks rest with
        | '\x7d' :: after => some (.table [], after)
        | _ => do
          let (assignments, after) ← members? fuel room rest
          return (← inlineTable? assignments, after)
    | _ => number? cs

/-- The items of an array up to the closing bracket; a comma may stand behind the
last. -/
def items? : (fuel room : Nat) → List Char → Option (List Toml × List Char)
  | 0, _, _ => none
  | fuel + 1, room, cs =>
    match skipGaps cs.length cs with
    | ']' :: after => some ([], after)
    | cs => do
      let (item, cs) ← value? fuel room cs
      match skipGaps cs.length cs with
      | ']' :: after => return ([item], after)
      | ',' :: rest =>
        let (items, after) ← items? fuel room rest
        return (item :: items, after)
      | _ => none

/-- The assignments in braces, at least one, up to the closing brace. -/
def members? : (fuel room : Nat) → List Char → Option (List (List String × Toml) × List Char)
  | 0, _, _ => none
  | fuel + 1, room, cs => do
    let (path, cs) ← key? cs
    let (value, cs) ← value? fuel room (skipBlanks (← Text.behind? '=' cs))
    match skipBlanks cs with
    | '\x7d' :: after => return ([(path, value)], after)
    | ',' :: rest =>
      let (more, after) ← members? fuel room rest
      return ((path, value) :: more, after)
    | _ => none

end

/-! ## §4 Statements -/

/-- One statement up to the end of its line. -/
def statement? (cs : List Char) : Option (Statement × List Char) :=
  match cs with
  | '[' :: '[' :: rest => do
    let (path, cs) ← key? rest
    return (.itemHeader path, ← lineEnd? (← Text.behind? ']' (← Text.behind? ']' cs)))
  | '[' :: rest => do
    let (path, cs) ← key? rest
    return (.header path, ← lineEnd? (← Text.behind? ']' cs))
  | _ => do
    let (path, cs) ← key? cs
    let cs := skipBlanks (← Text.behind? '=' cs)
    let (value, cs) ← value? (2 * cs.length + 2) depthLimit cs
    return (.assignment path value, ← lineEnd? cs)

/-- All statements of a text. -/
def statements? : Nat → List Char → Option (List Statement)
  | 0, _ => none
  | fuel + 1, cs =>
    match skipComment (skipGaps cs.length cs) with
    | [] => some []
    | cs => do
      let (statement, rest) ← statement? cs
      return statement :: (← statements? fuel rest)

/-- Leaves out a byte order mark. -/
def skipMark : List Char → List Char
  | '\ufeff' :: rest => rest
  | cs => cs

/-- The table that a whole text describes. -/
def read? (s : String) : Option Toml := do
  let cs := skipMark s.toList
  ofStatements? (← statements? (cs.length + 1) cs)

end SettingProfiles.Toml
