/-
SettingProfiles.Setting.Typed — values as people type them.

`Setting.ofTyped` guesses the kind of a value from its text, without the
blanks around it: the words for truth values, a whole number within 64 bits,
a finite float, and a list in brackets. Anything else is a text, and keeps
its blanks.
-/
import SettingProfiles.Setting.Basic
import SettingProfiles.Text.Blank
import SettingProfiles.Text.Pieces

namespace SettingProfiles

namespace Setting

/-- What stands between an opening bracket at the beginning of the text and a
closing one at its end. -/
def bracketed? : List Char → Option (List Char)
  | '[' :: rest => if rest.getLast? = some ']' then some rest.dropLast else none
  | _ => none

/-- The set listed between brackets: the pieces without their blanks, empty
ones left out. -/
def setOfTyped? (cs : List Char) : Option TextSet :=
  (bracketed? cs).map fun inner =>
    TextSet.of ((((Text.pieces ',' inner).map Text.trim).filter (· ≠ [])).map String.ofList)

/-- The whole number of 64 bits that a text is. -/
def integerOfTyped? (cs : List Char) : Option Int64 := (integerOfText? cs).bind int64OfInt?

/-- The finite float nearest to the number that a text writes. -/
def floatOfTyped? (cs : List Char) : Option Binary64 :=
  ((Numeral.ofText? cs).map fun n => (Decimal.ofNumeral n).nearest).filter Binary64.isFinite

/-- The value that a typed text stands for. -/
def ofTyped (raw : String) : Setting :=
  let cs := Text.trim raw.toList
  if cs = "true".toList then .bool true
  else if cs = "false".toList then .bool false
  else
    match integerOfTyped? cs with
    | some i => .integer i
    | none =>
      match floatOfTyped? cs with
      | some x => .float x
      | none =>
        match setOfTyped? cs with
        | some items => .textSet items
        | none => .text raw

end Setting

end SettingProfiles
