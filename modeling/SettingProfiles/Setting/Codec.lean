/-
SettingProfiles.Setting.Codec — setting values in JSON.

A value is written in its natural shape: truth values and texts as they
are, numbers as numbers, a set as the array of its texts in order. A float
always shows a point or a power of ten, which tells it from a whole number;
a float that is not finite has no numeral and is written as null.

  §1 Writing
  §2 Numerals — which number a numeral stands for when it is read.
  §3 Reading

Reading a float is fast and not always exact (§2): the value read may be a
neighbour of the nearest float.
-/
import SettingProfiles.Json.Fields
import SettingProfiles.Setting.Basic

namespace SettingProfiles

namespace Setting

/-! ## §1 Writing -/

/-- The numeral of a whole number. -/
def integerNumeral (i : Int) : Numeral := ⟨i < 0, i.natAbs, [], none⟩

def toJson : Setting → Json
  | .bool b => .bool b
  | .integer i => .number (integerNumeral i.toInt)
  | .float x =>
    match FloatStyle.document.numeral? x with
    | some n => .number n
    | none => .null
  | .text s => .text s
  | .textSet items => .array (items.items.map .text)

/-! ## §2 Numerals -/

/-- The digits of a numeral as far as they are read: a significand of 64 bits
and the power of ten that belongs to it. -/
structure Significand where
  value : Nat
  power : Int

/-- A significand below this bound has 64 bits. -/
def significandBound : Nat := UInt64.size

/-- Reads the digits before the point. Once a digit does not fit any more, it
and all that follow only raise the power. -/
def Significand.ofWhole : List Digit → Nat → Significand
  | [], value => ⟨value, 0⟩
  | d :: rest, value =>
    let next := 10 * value + d.val
    if next < significandBound then Significand.ofWhole rest next
    else ⟨value, (rest.length : Int) + 1⟩

/-- Reads the digits behind the point. From the first that does not fit on they
are left out. -/
def Significand.withFraction (s : Significand) : List Digit → Significand
  | [] => s
  | d :: rest =>
    let next := 10 * s.value + d.val
    if next < significandBound then
      Significand.withFraction ⟨next, s.power - 1⟩ rest
    else s

/-- The float nearest to a power of ten. -/
def powerOfTen (e : Nat) : Binary64 := .ofNat (tenTo e)

/-- The significand times its power of ten: one multiplication or division by a
power up to 10^308, two divisions for the powers below 10^-308. Nothing is
left of 64 bits below 10^-616. There is none if the result is not finite. -/
def Significand.scaled? (s : Significand) : Option Binary64 :=
  let x := Binary64.ofNat s.value
  if 0 ≤ s.power then
    if s.power ≤ 308 then (some (x.mul (powerOfTen s.power.toNat))).filter Binary64.isFinite
    else if s.value = 0 then some x
    else none
  else
    let places := (-s.power).toNat
    if places ≤ 308 then some (x.div (powerOfTen places))
    else if places ≤ 616 then
      some ((x.div (powerOfTen 308)).div (powerOfTen (places - 308)))
    else some (.zero false)

/-- The largest written power of ten that is read as a number. -/
def powerBound : Nat := 2147483647

/-- The float that a numeral is read as. A power of ten beyond `powerBound`
leaves zero if it is negative or the digits are zero. -/
def floatOfNumeral? (n : Numeral) : Option Binary64 :=
  let s := (Significand.ofWhole (Digits.ofNat n.whole) 0).withFraction n.fraction
  let e := n.exponent.getD 0
  let magnitude :=
    if e.natAbs ≤ powerBound then Significand.scaled? { s with power := s.power + e }
    else if e < 0 ∨ s.value = 0 then some (.zero false)
    else none
  magnitude.map fun x => if n.negative then x.neg else x

/-- The value that a numeral is read as: a whole number if it is written as one
and has 64 bits, else a float. Minus zero is a float. -/
def ofNumeral? (n : Numeral) : Option Setting :=
  let whole : Option Int64 :=
    if n.isWhole && !(n.negative && n.whole == 0) then
      int64OfInt? (if n.negative then -(n.whole : Int) else n.whole)
    else none
  match whole with
  | some i => some (.integer i)
  | none => (floatOfNumeral? n).map .float

/-! ## §3 Reading -/

/-- Null, objects and arrays of anything but texts are no values of settings. -/
def ofJson? : Json → Option Setting
  | .bool b => some (.bool b)
  | .number n => ofNumeral? n
  | .string s => s.map .text
  | .array items => (items.mapM Json.asText?).map fun texts => .textSet (TextSet.of texts)
  | .null | .object _ => none

end Setting

/-- The object of a setting map. -/
def SettingMap.toJson (m : SettingMap) : Json := Json.ofMap Setting.toJson m

def SettingMap.ofJson? (j : Json) : Option SettingMap := Json.map? Setting.ofJson? j

end SettingProfiles
