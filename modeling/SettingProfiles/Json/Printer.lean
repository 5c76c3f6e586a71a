/-
SettingProfiles.Json.Printer — writing JSON texts.

A layout says what stands between the tokens. In the compact layout that is
nothing; in the pretty one each item and each member has a line of its own,
indented by two spaces for each level, and a space follows the colon. Empty
arrays and objects are two brackets in both. In strings only the quote, the
backslash and the controls below U+0020 are escaped.
-/
import SettingProfiles.Json.Basic
import SettingProfiles.Text.Quoted

namespace SettingProfiles.Json

/-- What stands between the tokens of a text. -/
structure Layout where
  /-- In front of an item of this depth, and in front of the closing bracket. -/
  newline : Nat → List Char
  colon : List Char

namespace Layout

def compact : Layout := ⟨fun _ => [], [':']⟩

def pretty : Layout := ⟨fun depth => '\n' :: List.replicate (2 * depth) ' ', [':', ' ']⟩

end Layout

/-- How a character is written in a string literal. -/
def escapeChar (c : Char) : List Char :=
  if c = '"' then ['\\', '"']
  else if c = '\\' then ['\\', '\\']
  else if c = '\x08' then ['\\', 'b']
  else if c = '\x0c' then ['\\', 'f']
  else if c = '\n' then ['\\', 'n']
  else if c = '\r' then ['\\', 'r']
  else if c = '\t' then ['\\', 't']
  else if c.toNat < 0x20 then
    ['\\', 'u', '0', '0', Nat.digitChar (c.toNat / 16), Nat.digitChar (c.toNat % 16)]
  else [c]

/-- A string literal. What denotes no text is written as half of a surrogate
pair. -/
def writeString : Option String → List Char
  | some s => '"' :: (s.toList.flatMap escapeChar ++ ['"'])
  | none => "\"\\ud800\"".toList

mutual

/-- The text of a value that stands at a depth. -/
def writeValue (l : Layout) (depth : Nat) : Json → List Char
  | .null => "null".toList
  | .bool b => (if b then "true" else "false").toList
  | .number n => n.write
  | .string s => writeString s
  | .array [] => ['[', ']']
  | .array (item :: items) =>
    '[' :: (l.newline (depth + 1) ++ writeValue l (depth + 1) item ++
      writeItems l (depth + 1) items ++ l.newline depth ++ [']'])
  | .object [] => ['\x7b', '\x7d']
  | .object ((name, value) :: members) =>
    '\x7b' :: (l.newline (depth + 1) ++ writeString name ++ l.colon ++
      writeValue l (depth + 1) value ++ writeMembers l (depth + 1) members ++
      l.newline depth ++ ['\x7d'])

/-- Further items, each behind a comma. -/
def writeItems (l : Layout) (depth : Nat) : List Json → List Char
  | [] => []
  | item :: items =>
    ',' :: (l.newline depth ++ writeValue l depth item ++ writeItems l depth items)

/-- Further members, each behind a comma. -/
def writeMembers (l : Layout) (depth : Nat) : List (Option String × Json) → List Char
  | [] => []
  | (name, value) :: members =>
    ',' :: (l.newline depth ++ writeString name ++ l.colon ++ writeValue l depth value ++
      writeMembers l depth members)

end

/-- The text without any blanks. -/
def compact (j : Json) : String := String.ofList (writeValue .compact 0 j)

/-- The text with a line for each item. -/
def pretty (j : Json) : String := String.ofList (writeValue .pretty 0 j)

end SettingProfiles.Json
