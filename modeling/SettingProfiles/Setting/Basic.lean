/-
SettingProfiles.Setting.Basic — setting values.

A profile may hold settings of any name, but a value is of one of five
kinds: a truth value, a whole number of 64 bits, a float, a text, or a set
of texts. This module holds the values, the text of a value for people, and
the few names of settings that the store itself reads or writes.
-/
import SettingProfiles.Decimal.Style
import SettingProfiles.SortedMap

namespace SettingProfiles

/-! ## Values -/

/-- The value of a setting. -/
inductive Setting where
  | bool (b : Bool)
  | integer (i : Int64)
  | float (x : Binary64)
  | text (s : String)
  | textSet (items : TextSet)
  deriving DecidableEq

/-- Setting values by name. -/
abbrev SettingMap : Type := SortedMap Setting

namespace Setting

instance : Inhabited Setting := ⟨.bool false⟩

/-- The name of the kind of a value. -/
def kind : Setting → String
  | .bool _ => "bool"
  | .integer _ => "integer"
  | .float _ => "float"
  | .text _ => "text"
  | .textSet _ => "text-set"

/-- The text of a text value. -/
def asText? : Setting → Option String
  | .text s => some s
  | _ => none

/-- The words for truth values. -/
def boolText (b : Bool) : String := if b then "true" else "false"

/-- The digits of a whole number, behind a minus sign if it is negative. -/
def integerText (i : Int) : String :=
  String.ofList ((if i < 0 then ['-'] else []) ++ Nat.toDigits 10 i.natAbs)

/-- A float for people; the numbers that are not finite have names. -/
def floatText (x : Binary64) : String :=
  match FloatStyle.display.numeral? x with
  | some n => String.ofList n.write
  | none =>
    match x with
    | .infinite true => "-inf"
    | .infinite false => "inf"
    | _ => "NaN"

/-- The value for people: texts stand for themselves, sets are listed in
brackets, in order and without blanks. -/
def display : Setting → String
  | .bool b => boolText b
  | .integer i => integerText i.toInt
  | .float x => floatText x
  | .text s => s
  | .textSet items => "[" ++ ",".intercalate items.items ++ "]"

/-- Equality of values, floats being compared as numbers: NaN differs from
itself, and the two zeros are the same. -/
def sameValue : Setting → Setting → Bool
  | .float x, .float y => x.sameValue y
  | .float _, _ | _, .float _ => false
  | v, w => v == w

end Setting

/-- Equality of setting maps, with `Setting.sameValue` on the values. -/
def SettingMap.sameValues (m n : SettingMap) : Bool :=
  m.size == n.size &&
    (m.toList.zip n.toList).all fun (a, b) => a.1 == b.1 && a.2.sameValue b.2

/-- The whole number in 64 bits, if it has room there. -/
def int64OfInt? (i : Int) : Option Int64 :=
  let w := Int64.ofInt i
  if w.toInt = i then some w else none

theorem int64OfInt?_toInt (w : Int64) : int64OfInt? w.toInt = some w := by
  simp only [int64OfInt?, Int64.ofInt_toInt, if_true]

/-! ## Names -/

namespace SettingName

/-- The service that a profile talks to. -/
def provider : String := "provider"

/-- The least number of seconds between two requests. -/
def rateLimitSeconds : String := "rateLimitSeconds"

/-- Whether edits are made as differences. -/
def diffEnabled : String := "diffEnabled"

/-- How alike two passages must be to match, from 0 to 1. -/
def fuzzyMatchThreshold : String := "fuzzyMatchThreshold"

end SettingName

end SettingProfiles
