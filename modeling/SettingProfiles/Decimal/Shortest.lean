/-
SettingProfiles.Decimal.Shortest — the shortest decimal that reads back.

The reals that round to a float form an interval around it. Among the
decimals in the interval with the fewest digits, the shortest decimal of
the float is the one nearest to it; where two are equally near, the caller
says which is taken. The search goes through the grids of 1, 2, … 17
digits. If the interval meets a grid at all, then it holds one of the two
grid points next to the float, so only these are looked at.
-/
import SettingProfiles.Decimal.Basic

namespace SettingProfiles

/-- Which of two equally near decimals is taken. -/
inductive Tie where
  /-- The larger magnitude. -/
  | up
  /-- The even last digit. -/
  | even
  deriving DecidableEq

/-- The magnitudes that round to a float, in quarters of a unit. -/
structure RoundingInterval where
  value : Nat
  low : Nat
  high : Nat
  /-- The ends round to the float too. -/
  closed : Bool

namespace RoundingInterval

/-- A quarter of a unit, as a part of one. -/
def quartersOfOne : Nat := 4 * Binary64.one

/-- The interval of a finite float. Below a power of two the neighbours are half
as far apart, and an end rounds to the even mantissa. -/
def of (mantissa exponent : Nat) : RoundingInterval :=
  let step := twoTo exponent
  let value := 4 * mantissa * step
  { value := value
    low := value - (if mantissa = twoTo 52 ∧ exponent ≠ 0 then step else 2 * step)
    high := value + 2 * step
    closed := mantissa % 2 = 0 }

/-- The fraction `num / den` lies in the interval. -/
def contains (i : RoundingInterval) (num den : Nat) : Bool :=
  if i.closed then i.low * den ≤ num && num ≤ i.high * den
  else i.low * den < num && num < i.high * den

/-- The power of ten at or below the value, for a positive value. -/
def leadingPower (i : RoundingInterval) : Int :=
  if quartersOfOne ≤ i.value then
    ((Digits.ofNat (i.value / quartersOfOne)).length : Int) - 1
  else
    let parts := (quartersOfOne + i.value - 1) / i.value
    let places : Int := (Digits.ofNat (parts - 1)).length
    0 - places

/-- The multiple of `10^power` in the interval that is next to the value. -/
def gridPoint? (i : RoundingInterval) (tie : Tie) (power : Int) : Option Nat :=
  let num := if 0 ≤ power then tenTo power.toNat * quartersOfOne else quartersOfOne
  let den := if 0 ≤ power then 1 else tenTo (-power).toNat
  let below := i.value * den / num
  let above := below + 1
  let toBelow := i.value * den - below * num
  let toAbove := above * num - i.value * den
  match i.contains (below * num) den, i.contains (above * num) den with
  | false, false => none
  | true, false => some below
  | false, true => some above
  | true, true =>
    if toBelow < toAbove then some below
    else if toAbove < toBelow then some above
    else
      match tie with
      | .up => some above
      | .even => some (if below % 2 = 0 then below else above)

end RoundingInterval

namespace Decimal

/-- Moves the zeros at the end of the digits into the exponent. -/
def trimZeros (d : Decimal) : Decimal :=
  let zeros := ((Digits.ofNat d.digits).reverse.takeWhile (· = Digit.zero)).length
  if d.digits = 0 then d
  else { d with digits := d.digits / tenTo zeros, exponent := d.exponent + zeros }

/-- The shortest decimal that rounds to the float. Seventeen digits always
suffice. -/
def shortest (tie : Tie) (negative : Bool) (mantissa exponent : Nat) : Decimal :=
  if mantissa = 0 then ⟨negative, 0, 0⟩
  else
    let interval := RoundingInterval.of mantissa exponent
    let power := interval.leadingPower
    let found := (List.range 17).findSome? fun (more : Nat) =>
      (interval.gridPoint? tie (power - more)).map fun digits =>
        (⟨negative, digits, power - more⟩ : Decimal)
    (found.getD ⟨negative, 0, 0⟩).trimZeros

end Decimal

end SettingProfiles
