/-
SettingProfiles.Text.Pieces — cutting texts at characters.

A text with n separators has n + 1 pieces, which may be empty; put together
with the separator between them they are the text again.
-/
namespace SettingProfiles.Text

/-- The rest behind a character, if it is next. -/
def behind? (c : Char) : List Char → Option (List Char)
  | d :: rest => if d = c then some rest else none
  | [] => none

/-- The pieces of a text between the occurrences of a character. -/
def pieces (separator : Char) (cs : List Char) : List (List Char) := cs.splitOn separator

end SettingProfiles.Text
