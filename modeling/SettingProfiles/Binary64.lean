/-
SettingProfiles.Binary64 — floating point numbers of 64 bits.

A finite number is a sign, a mantissa below 2^53 and an exponent that
counts from the least one: its magnitude is `mantissa * 2^exponent` units,
where the unit is 2^-1074. Only the form with the largest mantissa that
fits is allowed, so two finite numbers are equal exactly when their bits
are. Arithmetic is exact on the units and rounds once, to the nearest
number, ties to the even mantissa.

  §1 Type       — the numbers, and their magnitude in units.
  §2 Rounding   — the nearest number to a quotient.
  §3 Arithmetic — product and quotient.
  §4 Order      — comparison by value, and rounding to whole numbers.
-/
namespace SettingProfiles

/-! ## §1 Type -/

/-- The power of two with this exponent. -/
def twoTo (e : Nat) : Nat := Nat.pow 2 e

/-- Mantissa and exponent of a finite number in its one allowed form: the
mantissa has 53 bits unless the exponent is the least. -/
def Binary64.Canonical (mantissa exponent : Nat) : Prop :=
  mantissa < twoTo 53 ∧ exponent ≤ 2045 ∧ (twoTo 52 ≤ mantissa ∨ exponent = 0)

instance (mantissa exponent : Nat) : Decidable (Binary64.Canonical mantissa exponent) :=
  inferInstanceAs (Decidable (_ ∧ _ ∧ (_ ∨ _)))

inductive Binary64 where
  | nan
  | infinite (negative : Bool)
  | finite (negative : Bool) (mantissa exponent : Nat)
      (canonical : Binary64.Canonical mantissa exponent)
  deriving DecidableEq

namespace Binary64

/-- How many units are one. -/
def one : Nat := twoTo 1074

def zero (negative : Bool) : Binary64 :=
  .finite negative 0 0 ⟨by decide, by decide, Or.inr rfl⟩

instance : Inhabited Binary64 := ⟨zero false⟩

def isFinite : Binary64 → Bool
  | .finite .. => true
  | _ => false

/-- The value of a finite number in units. -/
def units? : Binary64 → Option Int
  | .finite negative mantissa exponent _ =>
    let magnitude : Nat := mantissa * twoTo exponent
    some (if negative then -(magnitude : Int) else magnitude)
  | _ => none

/-! ## §2 Rounding -/

/-- The whole number nearest to `num / den`, an exact half going to the even
neighbour. -/
def roundQuotient (num den : Nat) : Nat :=
  let quotient := num / den
  let twice := 2 * (num % den)
  if twice < den then quotient
  else if den < twice then quotient + 1
  else quotient + quotient % 2

/-- The number with this mantissa and exponent, where a mantissa that rounding
has carried to 2^53 moves into the exponent; infinite past the largest
exponent. -/
def pack (negative : Bool) (mantissa exponent : Nat) : Binary64 :=
  let m := if mantissa = twoTo 53 then twoTo 52 else mantissa
  let e := if mantissa = twoTo 53 then exponent + 1 else exponent
  if h : Canonical m e then .finite negative m e h else .infinite negative

/-- The number nearest to `num / den`, for a positive `den`. -/
def ofQuotient (negative : Bool) (num den : Nat) : Binary64 :=
  let scaled := num * one
  let exponent := Nat.log2 (scaled / den) - 52
  pack negative (roundQuotient scaled (den * twoTo exponent)) exponent

/-- The number nearest to a whole number. -/
def ofNat (n : Nat) : Binary64 := ofQuotient false n 1

def ofInt (i : Int) : Binary64 := ofQuotient (i < 0) i.natAbs 1

/-! ## §3 Arithmetic -/

def isNegative : Binary64 → Bool
  | .nan => false
  | .infinite negative => negative
  | .finite negative .. => negative

def neg : Binary64 → Binary64
  | .nan => .nan
  | .infinite negative => .infinite (!negative)
  | .finite negative mantissa exponent h => .finite (!negative) mantissa exponent h

/-- The product, rounded once. -/
def mul (x y : Binary64) : Binary64 :=
  let negative := x.isNegative != y.isNegative
  match x, y with
  | .nan, _ | _, .nan => .nan
  | .infinite _, .infinite _ => .infinite negative
  | .infinite _, .finite _ m _ _ | .finite _ m _ _, .infinite _ =>
    if m = 0 then .nan else .infinite negative
  | .finite _ m e _, .finite _ m' e' _ =>
    ofQuotient negative (m * twoTo e * (m' * twoTo e')) (one * one)

/-- The quotient, rounded once. -/
def div (x y : Binary64) : Binary64 :=
  let negative := x.isNegative != y.isNegative
  match x, y with
  | .nan, _ | _, .nan => .nan
  | .infinite _, .infinite _ => .nan
  | .infinite _, .finite .. => .infinite negative
  | .finite .., .infinite _ => zero negative
  | .finite _ m e _, .finite _ m' e' _ =>
    if m' = 0 then (if m = 0 then .nan else .infinite negative)
    else ofQuotient negative (m * twoTo e) (m' * twoTo e')

/-! ## §4 Order -/

/-- Equality by value: the two zeros are equal, and NaN equals nothing. -/
def sameValue (x y : Binary64) : Bool :=
  match x, y with
  | .nan, _ | _, .nan => false
  | .infinite s, .infinite t => s == t
  | x, y => x.units? == y.units?

/-- At most, by value; NaN is comparable with nothing. -/
def le (x y : Binary64) : Bool :=
  match x, y with
  | .nan, _ | _, .nan => false
  | .infinite true, _ => true
  | _, .infinite false => true
  | x, y =>
    match x.units?, y.units? with
    | some a, some b => a ≤ b
    | _, _ => false

/-- A finite number rounded to a whole one, an exact half going away from
zero. -/
def round? (x : Binary64) : Option Int :=
  x.units?.map fun u =>
    let magnitude : Nat := (2 * u.natAbs + one) / (2 * one)
    if u < 0 then -(magnitude : Int) else magnitude

end Binary64

end SettingProfiles
