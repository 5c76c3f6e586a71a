/-
SettingProfiles.Decimal.Numeral — written decimal numbers.

A numeral is the written form of a decimal number: a sign, the part before
the point, the digits after it (none when there is no point) and the power
of ten, if one is written. `write` gives its text. Two readers:

  §2 `scan?`   — the strict form at the beginning of a text, as documents
                 have it: no plus sign in front, no leading zeros, digits on
                 both sides of a point.
  §3 `ofText?` — the free form of a whole text, as people type it: either
                 sign, leading zeros, digits on one side of the point only.
-/
import SettingProfiles.Decimal.Digit

namespace SettingProfiles

/-! ## §1 Numerals -/

/-- A decimal number as it is written. -/
structure Numeral where
  negative : Bool
  whole : Nat
  fraction : List Digit
  exponent : Option Int
  deriving DecidableEq

namespace Numeral

/-- The power of ten, with its sign always written. -/
def writeExponent : Option Int → List Char
  | none => []
  | some e => 'e' :: (if e < 0 then '-' else '+') :: Nat.toDigits 10 e.natAbs

/-- The text of the numeral. -/
def write (n : Numeral) : List Char :=
  (if n.negative then ['-'] else []) ++ Nat.toDigits 10 n.whole ++
    (if n.fraction.isEmpty then [] else '.' :: Digits.toChars n.fraction) ++
    writeExponent n.exponent

/-- The numeral has neither a point nor a power of ten. -/
def isWhole (n : Numeral) : Bool := n.fraction.isEmpty && n.exponent.isNone

/-! ## §2 The strict form -/

/-- The digits before the point: a zero alone, or no zero in front. -/
def scanWhole? (cs : List Char) : Option (Nat × List Char) :=
  match cs with
  | '0' :: rest => some (0, rest)
  | _ =>
    match Digits.span cs with
    | ([], _) => none
    | (ds, rest) => some (Digits.value ds, rest)

/-- A point with at least one digit behind it, or nothing. -/
def scanFraction? (cs : List Char) : Option (List Digit × List Char) :=
  match cs with
  | '.' :: rest =>
    match Digits.span rest with
    | ([], _) => none
    | (ds, after) => some (ds, after)
  | _ => some ([], cs)

/-- An optional sign with at least one digit behind it. -/
def scanSigned? (cs : List Char) : Option (Int × List Char) :=
  let (negative, rest) :=
    match cs with
    | '-' :: rest => (true, rest)
    | '+' :: rest => (false, rest)
    | _ => (false, cs)
  match Digits.span rest with
  | ([], _) => none
  | (ds, after) =>
    let magnitude : Int := Digits.value ds
    some (if negative then -magnitude else magnitude, after)

/-- A power of ten, or nothing. -/
def scanExponent? (cs : List Char) : Option (Option Int × List Char) :=
  match cs with
  | 'e' :: rest | 'E' :: rest => (scanSigned? rest).map (fun (e, after) => (some e, after))
  | _ => some (none, cs)

/-- The numeral of the strict form at the beginning of the text, and the rest
of the text. -/
def scan? (cs : List Char) : Option (Numeral × List Char) := do
  let (negative, cs) :=
    match cs with
    | '-' :: rest => (true, rest)
    | _ => (false, cs)
  let (whole, cs) ← scanWhole? cs
  let (fraction, cs) ← scanFraction? cs
  let (exponent, cs) ← scanExponent? cs
  return (⟨negative, whole, fraction, exponent⟩, cs)

/-! ## §3 The free form -/

/-- An optional sign in front of a text: whether it is a minus, and the rest. -/
def splitSign : List Char → Bool × List Char
  | '-' :: rest => (true, rest)
  | '+' :: rest => (false, rest)
  | cs => (false, cs)

/-- The numeral of the free form that the whole text is. -/
def ofText? (cs : List Char) : Option Numeral := do
  let (negative, cs) := splitSign cs
  let (whole, cs) := Digits.span cs
  let (fraction, cs) :=
    match cs with
    | '.' :: rest => Digits.span rest
    | _ => ([], cs)
  guard (!(whole.isEmpty && fraction.isEmpty))
  let (exponent, cs) ← scanExponent? cs
  guard cs.isEmpty
  return ⟨negative, Digits.value whole, fraction, exponent⟩

end Numeral

/-- The whole number that a text of an optional sign and digits is. -/
def integerOfText? (cs : List Char) : Option Int :=
  let (negative, cs) := Numeral.splitSign cs
  match cs with
  | [] => none
  | _ =>
    (Digits.ofChars? cs).map fun ds =>
      let magnitude : Int := Digits.value ds
      if negative then -magnitude else magnitude

end SettingProfiles
