/-
SettingProfiles.Text.Quoted — texts in quotes, for messages.

A quoted text stands between double quotes. The quote and the backslash get
a backslash in front, NUL, tab, line feed and carriage return have letters,
and every other character that is not printable or that extends the one
before it is written as `\u{hex}`, in lower case and without leading zeros.
So a quoted text is one line and shows each of its characters.
-/
import SettingProfiles.Text.Printable
import SettingProfiles.Text.Extending
import SettingProfiles.Text.Hex

namespace SettingProfiles.Text

/-- How a character is written between the quotes. -/
def quotedChar (c : Char) : List Char :=
  if c = '"' then ['\\', '"']
  else if c = '\\' then ['\\', '\\']
  else if c = '\n' then ['\\', 'n']
  else if c = '\r' then ['\\', 'r']
  else if c = '\t' then ['\\', 't']
  else if c.toNat = 0 then ['\\', '0']
  else if isPrintable c && !isExtending c then [c]
  else ['\\', 'u', '\x7b'] ++ hexDigits c.toNat ++ ['\x7d']

/-- The text in quotes. -/
def quoted (s : String) : String :=
  String.ofList ('"' :: (s.toList.flatMap quotedChar ++ ['"']))

end SettingProfiles.Text
