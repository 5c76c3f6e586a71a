/-
SettingProfiles.Decimal.Digit — decimal digits.

Digits as numbers below ten, the digits of a number, and the run of digits
a text begins with. `Nat.toDigits` writes the digits of a number as
characters; this module keeps them as values.
-/
namespace SettingProfiles

/-- A decimal digit. -/
abbrev Digit : Type := Fin 10

/-- The power of ten with this exponent. -/
def tenTo (e : Nat) : Nat := Nat.pow 10 e

namespace Digit

def zero : Digit := ⟨0, by decide⟩

def toChar (d : Digit) : Char := Nat.digitChar d.val

/-- The digit of a character that core counts as one. -/
def ofChar (c : Char) : Digit := Fin.ofNat 10 (c.toNat - '0'.toNat)

end Digit

namespace Digits

/-- The digits of a number, the first of them not zero unless it stands
alone. -/
def ofNat (n : Nat) : List Digit := (Nat.toDigits 10 n).map Digit.ofChar

/-- The number with these digits. -/
def value (ds : List Digit) : Nat := ds.foldl (fun n d => 10 * n + d.val) 0

def toChars (ds : List Digit) : List Char := ds.map Digit.toChar

/-- The digits of a number, with zeros in front up to a width. -/
def padded (width n : Nat) : List Digit :=
  let ds := ofNat n
  List.replicate (width - ds.length) Digit.zero ++ ds

/-- The run of digits at the beginning of the text, and the rest of it. -/
def span : List Char → List Digit × List Char
  | [] => ([], [])
  | c :: rest =>
    if c.isDigit then
      let (ds, after) := span rest
      (Digit.ofChar c :: ds, after)
    else ([], c :: rest)

/-- Only the digits, for a text that holds nothing else. -/
def ofChars? (cs : List Char) : Option (List Digit) :=
  if cs.all Char.isDigit then some (cs.map Digit.ofChar) else none

end Digits

end SettingProfiles
