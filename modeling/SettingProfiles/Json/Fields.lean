/-
SettingProfiles.Json.Fields — reading records and maps.

A record is written as an object, whose members may stand in any order and
among others, or as an array of the values of its fields in order. In an
object each field may occur once, and members of other names are passed
over; an array may be too short, but not too long. A map is written as an
object, and of two members of a name the later counts. Names must denote
texts everywhere.
-/
import SettingProfiles.Json.Basic
import SettingProfiles.SortedMap

namespace SettingProfiles.Json

variable {α : Type}

/-- Which fields of a record are written, in the order of their names. -/
inductive Fields where
  /-- Written as an object. -/
  | named (values : List (Option Json))
  /-- Written as an array. -/
  | listed (values : List (Option Json))

/-- The values written for a name. -/
def valuesOf (name : String) (members : List (Option String × Json)) : List Json :=
  (members.filter (fun m => m.1 = some name)).map Prod.snd

/-- The value of a field, if it is written at most once. -/
def field? (members : List (Option String × Json)) (name : String) : Option (Option Json) :=
  match valuesOf name members with
  | [] => some none
  | [value] => some (some value)
  | _ => none

/-- The fields of a record with these names. -/
def fields? (names : List String) : Json → Option Fields
  | .object members =>
    if members.any (fun m => m.1.isNone) then none
    else (names.mapM (field? members)).map .named
  | .array items =>
    if items.length ≤ names.length then
      some (.listed (items.map some ++ List.replicate (names.length - items.length) none))
    else none
  | _ => none

/-- The values of the fields in either form. -/
def Fields.values : Fields → List (Option Json)
  | .named values | .listed values => values

/-- A field that must be written. -/
def required (read? : Json → Option α) : Option Json → Option α
  | some value => read? value
  | none => none

/-- A field that has a value when it is not written. -/
def withDefault (default : α) (read? : Json → Option α) : Option Json → Option α
  | some value => read? value
  | none => some default

/-- A value that may be null. -/
def nullable (read? : Json → Option α) : Json → Option (Option α)
  | .null => some none
  | value => (read? value).map some

/-- A member of a map. -/
def binding? (read? : Json → Option α) (member : Option String × Json) : Option (String × α) := do
  let name ← member.1
  let value ← read? member.2
  return (name, value)

/-- A map whose values `read?` reads. -/
def map? (read? : Json → Option α) : Json → Option (SortedMap α)
  | .object members => (members.mapM (binding? read?)).map SortedMap.ofList
  | _ => none

/-- The object of a map, in the order of its keys. -/
def ofMap (write : α → Json) (m : SortedMap α) : Json :=
  record (m.toList.map fun (key, value) => (key, write value))

/-- A value that may be null. -/
def ofOption (write : α → Json) : Option α → Json
  | some value => write value
  | none => .null

end SettingProfiles.Json
