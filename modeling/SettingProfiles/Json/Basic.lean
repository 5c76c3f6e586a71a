/-
SettingProfiles.Json.Basic — JSON values.

A value is kept as it is written, up to blanks and the spelling of escapes
and exponents: numbers are numerals, and the members of an object stand in
their order, repeated names included. A string literal may hold an escape
for one half of a surrogate pair; it is well formed and denotes no text, so
it is `none` here.
-/
import SettingProfiles.Decimal.Numeral

namespace SettingProfiles

/-- A JSON value as it is written. -/
inductive Json where
  | null
  | bool (b : Bool)
  | number (n : Numeral)
  | string (s : Option String)
  | array (items : List Json)
  | object (members : List (Option String × Json))

namespace Json

instance : Inhabited Json := ⟨.null⟩

/-- A string value of a text. -/
def text (s : String) : Json := .string (some s)

/-- An object with these members. -/
def record (members : List (String × Json)) : Json :=
  .object (members.map fun (name, value) => (some name, value))

/-- The text of a string value. -/
def asText? : Json → Option String
  | .string s => s
  | _ => none

def asBool? : Json → Option Bool
  | .bool b => some b
  | _ => none

end Json

end SettingProfiles
