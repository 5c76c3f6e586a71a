/-
SettingProfiles.Decimal.Basic — decimal numbers and the floats next to them.

A decimal is `digits * 10^exponent` with a sign. `nearest` is the float
closest to it. Decimals far outside the range of floats are settled by
their size alone, so that no power of ten is formed for them.
-/
import SettingProfiles.Binary64
import SettingProfiles.Decimal.Numeral

namespace SettingProfiles

/-- The number `digits * 10^exponent`, negated if `negative`. -/
structure Decimal where
  negative : Bool
  digits : Nat
  exponent : Int
  deriving DecidableEq

namespace Decimal

/-- The number that a numeral writes. -/
def ofNumeral (n : Numeral) : Decimal where
  negative := n.negative
  digits := n.whole * tenTo n.fraction.length + Digits.value n.fraction
  exponent := n.exponent.getD 0 - n.fraction.length

/-- The exponent of the power of ten above the magnitude. -/
def magnitude (d : Decimal) : Int := (Nat.toDigits 10 d.digits).length + d.exponent

/-- The float nearest to the decimal. From 10^309 on it is infinite, and below
10^-330 it is zero. -/
def nearest (d : Decimal) : Binary64 :=
  if d.digits = 0 then .zero d.negative
  else if 310 ≤ d.magnitude then .infinite d.negative
  else if d.magnitude < -330 then .zero d.negative
  else if 0 ≤ d.exponent then
    .ofQuotient d.negative (d.digits * tenTo d.exponent.toNat) 1
  else .ofQuotient d.negative d.digits (tenTo (-d.exponent).toNat)

end Decimal

end SettingProfiles
