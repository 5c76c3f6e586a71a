/-
SettingProfiles.Decimal.Style — how floats are written.

A float is written with its shortest digits. The rest is style: which
exponents are written out with zeros, whether a whole number gets a point,
and which of two equally short digits is taken. The two styles in use are
`FloatStyle.display`, for people, and `FloatStyle.document`, for stored
documents.
-/
import SettingProfiles.Decimal.Shortest

namespace SettingProfiles

/-- What the shortest digits leave open in the text of a float. -/
structure FloatStyle where
  tie : Tie
  /-- Numbers whose leading digit stands at one of these powers of ten are
  written without a power of ten. -/
  positional : Int → Bool
  /-- A whole number written without a power of ten ends in `.0`. -/
  pointOnWhole : Bool

namespace FloatStyle

/-- Floats for people are never written with a power of ten, whole numbers have
no point, and of two equally short digits the larger is taken. -/
def display : FloatStyle := ⟨.up, fun _ => true, false⟩

/-- Floats in documents are written with a power of ten below 10^-5 and from
10^16 on, always show a point or a power, and end in an even digit where two
digits are equally short. -/
def document : FloatStyle := ⟨.even, fun power => -5 ≤ power && power ≤ 15, true⟩

/-- The decimal written without a power of ten. -/
def positionalNumeral (pointOnWhole : Bool) (d : Decimal) : Numeral :=
  if 0 ≤ d.exponent then
    { negative := d.negative
      whole := d.digits * tenTo d.exponent.toNat
      fraction := if pointOnWhole then [Digit.zero] else []
      exponent := none }
  else
    let places := (-d.exponent).toNat
    { negative := d.negative
      whole := d.digits / tenTo places
      fraction := Digits.padded places (d.digits % tenTo places)
      exponent := none }

/-- The decimal written as one digit, the others behind a point, and a power of
ten. -/
def scientificNumeral (d : Decimal) : Numeral :=
  let ds := Digits.ofNat d.digits
  { negative := d.negative
    whole := Digits.value (ds.take 1)
    fraction := ds.drop 1
    exponent := some (d.magnitude - 1) }

/-- The numeral of a finite float. -/
def numeral? (style : FloatStyle) : Binary64 → Option Numeral
  | .finite negative mantissa exponent _ =>
    let d := Decimal.shortest style.tie negative mantissa exponent
    some (if style.positional (d.magnitude - 1) then positionalNumeral style.pointOnWhole d
      else scientificNumeral d)
  | _ => none

end FloatStyle

end SettingProfiles
