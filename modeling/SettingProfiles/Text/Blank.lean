/-
SettingProfiles.Text.Blank — the blank characters, and trimming.

Blank are the characters with the property White_Space: the ASCII blanks
with the vertical tab and the form feed, the next-line control, the
no-break space, and the spaces and separators of general punctuation. The
zero-width space and the byte order mark are not among them.
-/
import SettingProfiles.Text.CodePoints

namespace SettingProfiles.Text

/-- The code points with the property White_Space. -/
def blankRanges : List (Nat × Nat) :=
  [(0x09, 0x0D), (0x20, 0x20), (0x85, 0x85), (0xA0, 0xA0), (0x1680, 0x1680), (0x2000, 0x200A),
   (0x2028, 0x2029), (0x202F, 0x202F), (0x205F, 0x205F), (0x3000, 0x3000)]

def isBlank (c : Char) : Bool := inRanges blankRanges c.toNat

/-- The text without the blanks at its two ends. -/
def trim (cs : List Char) : List Char :=
  ((cs.dropWhile isBlank).reverse.dropWhile isBlank).reverse

end SettingProfiles.Text
