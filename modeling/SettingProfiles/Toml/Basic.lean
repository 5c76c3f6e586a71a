/-
SettingProfiles.Toml.Basic — TOML values.

What a TOML text says, without how it says it: a table has each of its keys
once, whether the text used headers, dotted keys or braces for it.
-/
import SettingProfiles.Binary64
import SettingProfiles.Toml.Moment

namespace SettingProfiles

/-- A TOML value. -/
inductive Toml where
  | bool (b : Bool)
  | integer (i : Int64)
  | float (x : Binary64)
  | text (s : String)
  | moment (m : Moment)
  | array (items : List Toml)
  | table (members : List (String × Toml))

namespace Toml

instance : Inhabited Toml := ⟨.table []⟩

/-- The text of a text value. -/
def asText? : Toml → Option String
  | .text s => some s
  | _ => none

/-- The key under which the text of a date or time stands where it is read as a
table. -/
def momentKey : String := "$__toml_private_datetime"

/-- The members of a table. A date or time has one, its text. -/
def tableMembers? : Toml → Option (List (String × Toml))
  | .table members => some members
  | .moment m => some [(momentKey, .text m.text)]
  | _ => none

/-- How deep arrays and braces may be nested, and how many keys a dotted key may
join. -/
def depthLimit : Nat := 79

/-! ## Characters -/

/-- The blanks inside a line. -/
def isBlank (c : Char) : Bool := c = ' ' || c = '\t'

def skipBlanks (cs : List Char) : List Char := cs.dropWhile isBlank

/-- A character that may stand in texts and comments: no control but the tab. -/
def isPlain (c : Char) : Bool := c = '\t' || (0x20 ≤ c.toNat && c.toNat ≠ 0x7F)

/-- The rest of the text behind a line end, if one is next. -/
def newline? : List Char → Option (List Char)
  | '\n' :: rest => some rest
  | '\r' :: '\n' :: rest => some rest
  | _ => none

/-- Leaves out a line end, if one is next. -/
def skipNewline (cs : List Char) : List Char := (newline? cs).getD cs

end Toml

end SettingProfiles
