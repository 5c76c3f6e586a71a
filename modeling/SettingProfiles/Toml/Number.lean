/-
SettingProfiles.Toml.Number — numbers, and all that begins like one.

Whole numbers are decimal, with an optional sign, or have one of the marks
`0x`, `0o` and `0b` and no sign; they must fit into 64 bits. Floats have a
point with digits on both sides, a power of ten, or both; too large a
positive float is refused. In all of them one underscore may stand between
two digits.

  §1 Digits
  §2 Whole numbers and floats
  §3 Values that begin like numbers
-/
import SettingProfiles.Decimal.Basic
import SettingProfiles.Setting.Basic
import SettingProfiles.Text.Hex
import SettingProfiles.Toml.Basic

namespace SettingProfiles.Toml

/-! ## §1 Digits -/

/-- The rest of a run of digits, each of which may have one underscore in front. -/
def moreDigits? (isDigit : Char → Bool) : List Char → Option (List Char × List Char)
  | '_' :: c :: rest =>
    if isDigit c then (moreDigits? isDigit rest).map fun (ds, after) => (c :: ds, after) else none
  | ['_'] => none
  | c :: rest =>
    if isDigit c then (moreDigits? isDigit rest).map fun (ds, after) => (c :: ds, after)
    else some ([], c :: rest)
  | [] => some ([], [])

/-- A run of digits, at least one, without the underscores in it. -/
def digits? (isDigit : Char → Bool) : List Char → Option (List Char × List Char)
  | c :: rest =>
    if isDigit c then (moreDigits? isDigit rest).map fun (ds, after) => (c :: ds, after) else none
  | [] => none

/-- The digits before a point: a zero alone, or no zero in front. -/
def wholeDigits? : List Char → Option (List Char × List Char)
  | '0' :: rest => some (['0'], rest)
  | cs => digits? Char.isDigit cs

/-! ## §2 Whole numbers and floats -/

/-- The digits of a base, as far as TOML has marks for it. -/
def isDigitOf (base : Nat) (c : Char) : Bool :=
  match Text.hexValue? c with
  | some d => d < base
  | none => false

/-- A whole number in another base, whose mark is behind. -/
def basedInteger? (base : Nat) (cs : List Char) : Option (Toml × List Char) := do
  let (ds, after) ← digits? (isDigitOf base) cs
  let n := ds.foldl (fun n c => base * n + (Text.hexValue? c).getD 0) 0
  return (.integer (← int64OfInt? n), after)

/-- The fraction and the power of ten of a float, as far as they are there. -/
def floatTail? (cs : List Char) : Option (List Char × List Char) := do
  let (fraction, cs) ←
    match cs with
    | '.' :: rest => (digits? Char.isDigit rest).map fun (ds, after) => ('.' :: ds, after)
    | _ => some ([], cs)
  let exponent (rest : List Char) : Option (List Char × List Char) :=
    match rest with
    | '+' :: rest | '-' :: rest | rest => digits? Char.isDigit rest
  let sign (rest : List Char) : List Char :=
    match rest with
    | '-' :: _ => ['-']
    | _ => []
  match cs with
  | 'e' :: rest | 'E' :: rest =>
    (exponent rest).map fun (ds, after) => (fraction ++ 'e' :: (sign rest ++ ds), after)
  | _ => some (fraction, cs)

/-- The float that a text of sign, digits, point and power of ten writes. -/
def float? (cs : List Char) : Option Binary64 := do
  let x := (Decimal.ofNumeral (← Numeral.ofText? cs)).nearest
  if x = .infinite false then none else some x

/-- A decimal number behind its sign. -/
def decimal? (negative : Bool) (cs : List Char) : Option (Toml × List Char) := do
  let sign := if negative then ['-'] else []
  let (whole, cs) ← wholeDigits? cs
  let (tail, after) ← floatTail? cs
  if tail.isEmpty then
    let i ← (integerOfText? (sign ++ whole)).bind int64OfInt?
    return (.integer i, after)
  else return (.float (← float? (sign ++ whole ++ tail)), after)

/-- A number behind its sign. -/
def signed? (negative : Bool) : List Char → Option (Toml × List Char)
  | 'i' :: 'n' :: 'f' :: rest => some (.float (.infinite negative), rest)
  | 'n' :: 'a' :: 'n' :: rest => some (.float .nan, rest)
  | cs => decimal? negative cs

/-! ## §3 Values that begin like numbers -/

/-- A number, a date or a time. -/
def number? (cs : List Char) : Option (Toml × List Char) :=
  match Moment.read? cs with
  | some (m, after) => some (.moment m, after)
  | none =>
    match cs with
    | '0' :: 'x' :: rest => basedInteger? 16 rest
    | '0' :: 'o' :: rest => basedInteger? 8 rest
    | '0' :: 'b' :: rest => basedInteger? 2 rest
    | '-' :: rest => signed? true rest
    | '+' :: rest => signed? false rest
    | _ => signed? false cs

end SettingProfiles.Toml
