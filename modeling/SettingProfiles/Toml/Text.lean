/-
SettingProfiles.Toml.Text — the four kinds of texts.

Between double quotes a backslash begins an escape, between single quotes
every character stands for itself. Either kind may have three quotes at each
end; then it may have several lines, a line end behind the opening quotes
does not count, and every other one is a line feed. Up to two quotes may
stand before the closing ones. Controls other than the tab are refused.
-/
import SettingProfiles.Text.Hex
import SettingProfiles.Toml.Basic

namespace SettingProfiles.Toml

/-! ## Escapes -/

/-- The character with this number, which may not be half of a surrogate pair. -/
def charOfNumber? (n : Nat) : Option Char := if n.isValidChar then some (Char.ofNat n) else none

/-- The character that hexadecimal digits name. -/
def hexChar? (cs : List Char) : Option Char := (Text.hexNumber? cs).bind charOfNumber?

/-- The character of a one-letter escape. -/
def escapedChar? : Char → Option Char
  | 'b' => some '\x08'
  | 't' => some '\t'
  | 'n' => some '\n'
  | 'f' => some '\x0c'
  | 'r' => some '\r'
  | '"' => some '"'
  | '\\' => some '\\'
  | _ => none

/-- Puts a character before the text that a scanner finds. -/
def before (c : Char) (found : Option (List Char × List Char)) : Option (List Char × List Char) :=
  found.map fun (cs, after) => (c :: cs, after)

/-! ## On one line -/

/-- A text whose opening double quote is behind. -/
def basic? : List Char → Option (List Char × List Char)
  | '"' :: rest => some ([], rest)
  | '\\' :: 'u' :: a :: b :: c :: d :: rest => do before (← hexChar? [a, b, c, d]) (basic? rest)
  | '\\' :: 'U' :: a :: b :: c :: d :: e :: f :: g :: h :: rest => do
    before (← hexChar? [a, b, c, d, e, f, g, h]) (basic? rest)
  | '\\' :: c :: rest => do before (← escapedChar? c) (basic? rest)
  | c :: rest => if isPlain c && c ≠ '\\' then before c (basic? rest) else none
  | [] => none

/-- A text whose opening single quote is behind. -/
def literal? : List Char → Option (List Char × List Char)
  | '\'' :: rest => some ([], rest)
  | c :: rest => if isPlain c then before c (literal? rest) else none
  | [] => none

/-! ## On several lines -/

/-- A backslash before this text ends the line: up to the next line nothing but
blanks follow. -/
def endsLine (cs : List Char) : Bool := (newline? (skipBlanks cs)).isSome

/-- A text whose three opening double quotes are behind. While `skipping`, blanks
and line ends do not count. -/
def longBasic? (skipping : Bool) : List Char → Option (List Char × List Char)
  | '"' :: '"' :: '"' :: '"' :: '"' :: rest => some (['"', '"'], rest)
  | '"' :: '"' :: '"' :: '"' :: rest => some (['"'], rest)
  | '"' :: '"' :: '"' :: rest => some ([], rest)
  | '\\' :: 'u' :: a :: b :: c :: d :: rest => do
    before (← hexChar? [a, b, c, d]) (longBasic? false rest)
  | '\\' :: 'U' :: a :: b :: c :: d :: e :: f :: g :: h :: rest => do
    before (← hexChar? [a, b, c, d, e, f, g, h]) (longBasic? false rest)
  | '\\' :: c :: rest =>
    if endsLine (c :: rest) then longBasic? true (c :: rest)
    else do before (← escapedChar? c) (longBasic? false rest)
  | '\r' :: '\n' :: rest =>
    if skipping then longBasic? true rest else before '\n' (longBasic? false rest)
  | c :: rest =>
    if skipping && (isBlank c || c = '\n') then longBasic? true rest
    else if (isPlain c && c ≠ '\\') || c = '\n' then before c (longBasic? false rest)
    else none
  | [] => none

/-- A text whose three opening single quotes are behind. -/
def longLiteral? : List Char → Option (List Char × List Char)
  | '\'' :: '\'' :: '\'' :: '\'' :: '\'' :: rest => some (['\'', '\''], rest)
  | '\'' :: '\'' :: '\'' :: '\'' :: rest => some (['\''], rest)
  | '\'' :: '\'' :: '\'' :: rest => some ([], rest)
  | '\r' :: '\n' :: rest => before '\n' (longLiteral? rest)
  | c :: rest => if isPlain c || c = '\n' then before c (longLiteral? rest) else none
  | [] => none

/-! ## Any kind -/

/-- A text of one line, if a quote is next. -/
def shortText? : List Char → Option (List Char × List Char)
  | '"' :: rest => basic? rest
  | '\'' :: rest => literal? rest
  | _ => none

/-- A text, if a quote is next. -/
def text? (cs : List Char) : Option (List Char × List Char) :=
  match cs with
  | '"' :: '"' :: '"' :: rest => longBasic? false (skipNewline rest)
  | '\'' :: '\'' :: '\'' :: rest => longLiteral? (skipNewline rest)
  | _ => shortText? cs

end SettingProfiles.Toml
