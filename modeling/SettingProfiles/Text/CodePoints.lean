/-
SettingProfiles.Text.CodePoints — classes of characters given by ranges.

A class is a list of ranges of code points, both ends included. The tables
of this folder (`Blank`, `Printable`, `Extending`) are such lists.
-/
namespace SettingProfiles.Text

/-- The code point lies in one of the ranges, whose ends belong to them. -/
def inRanges (ranges : List (Nat × Nat)) (code : Nat) : Bool :=
  ranges.any (fun r => r.1 ≤ code && code ≤ r.2)

end SettingProfiles.Text
