/-
SettingProfiles.Json.Reader — reading JSON texts.

The strict grammar: one value, blanks (space, tab, line feed, carriage
return) around tokens, no commas at the end of lists, no byte order mark,
nothing behind the value. Depth is not limited.

  §1 Strings — the pieces of a string literal, and the text they denote.
  §2 Values  — values, the items of an array, the members of an object.

The scanners take fuel. Each of them spends one unit per call and is called
at most twice for each character, so twice the length of the text and two
suffice; `Json.read?` supplies that.
-/
import SettingProfiles.Json.Basic
import SettingProfiles.Text.Hex

namespace SettingProfiles.Json

/-! ## §1 Strings -/

/-- A part of a string literal: a character, or the code unit of sixteen bits
that a numeric escape gives. -/
inductive Piece where
  | plain (c : Char)
  | unit (code : Nat)
  deriving DecidableEq

def isHighSurrogate (code : Nat) : Bool := 0xD800 ≤ code && code < 0xDC00

def isLowSurrogate (code : Nat) : Bool := 0xDC00 ≤ code && code < 0xE000

/-- The character that the two halves of a surrogate pair stand for. -/
def joinSurrogates (high low : Nat) : Char :=
  Char.ofNat (0x10000 + (high - 0xD800) * 0x400 + (low - 0xDC00))

/-- The text of the pieces. There is none if half of a surrogate pair stands
alone. -/
def textOfPieces? : List Piece → Option (List Char)
  | [] => some []
  | .plain c :: rest => (textOfPieces? rest).map (c :: ·)
  | .unit high :: .unit low :: rest =>
    if isHighSurrogate high then
      if isLowSurrogate low then (textOfPieces? rest).map (joinSurrogates high low :: ·)
      else none
    else if isLowSurrogate high then none
    else (textOfPieces? (.unit low :: rest)).map (Char.ofNat high :: ·)
  | .unit code :: rest =>
    if isHighSurrogate code || isLowSurrogate code then none
    else (textOfPieces? rest).map (Char.ofNat code :: ·)

/-- The character of a one-letter escape. -/
def escapedChar? : Char → Option Char
  | '"' => some '"'
  | '\\' => some '\\'
  | '/' => some '/'
  | 'b' => some '\x08'
  | 'f' => some '\x0c'
  | 'n' => some '\n'
  | 'r' => some '\r'
  | 't' => some '\t'
  | _ => none

/-- The pieces of a string literal whose opening quote is behind, and the text
after its closing quote. Controls must be escaped. -/
def scanPieces? : List Char → Option (List Piece × List Char)
  | '"' :: rest => some ([], rest)
  | '\\' :: 'u' :: a :: b :: c :: d :: rest => do
    let code ← Text.hexNumber? [a, b, c, d]
    let (pieces, after) ← scanPieces? rest
    return (.unit code :: pieces, after)
  | '\\' :: c :: rest => do
    let c ← escapedChar? c
    let (pieces, after) ← scanPieces? rest
    return (.plain c :: pieces, after)
  | c :: rest =>
    if c = '\\' ∨ c.toNat < 0x20 then none
    else do
      let (pieces, after) ← scanPieces? rest
      return (.plain c :: pieces, after)
  | [] => none

/-- A string literal whose opening quote is behind. -/
def scanString? (cs : List Char) : Option (Option String × List Char) :=
  (scanPieces? cs).map fun (pieces, after) => ((textOfPieces? pieces).map String.ofList, after)

/-! ## §2 Values -/

/-- The blanks of JSON. -/
def isBlank (c : Char) : Bool := c = ' ' || c = '\t' || c = '\n' || c = '\r'

def skipBlanks (cs : List Char) : List Char := cs.dropWhile isBlank

mutual

/-- The value at the beginning of the text, behind blanks, and the rest of the
text. -/
def scanValue? : Nat → List Char → Option (Json × List Char)
  | 0, _ => none
  | fuel + 1, cs =>
    match skipBlanks cs with
    | 'n' :: 'u' :: 'l' :: 'l' :: rest => some (.null, rest)
    | 't' :: 'r' :: 'u' :: 'e' :: rest => some (.bool true, rest)
    | 'f' :: 'a' :: 'l' :: 's' :: 'e' :: rest => some (.bool false, rest)
    | '"' :: rest => (scanString? rest).map fun (s, after) => (.string s, after)
    | '[' :: rest =>
      match skipBlanks rest with
      | ']' :: after => some (.array [], after)
      | _ => (scanItems? fuel rest).map fun (items, after) => (.array items, after)
    | '\x7b' :: rest =>
      match skipBlanks rest with
      | '\x7d' :: after => some (.object [], after)
      | _ => (scanMembers? fuel rest).map fun (members, after) => (.object members, after)
    | cs => (Numeral.scan? cs).map fun (n, after) => (.number n, after)

/-- The items of an array, at least one, up to the closing bracket. -/
def scanItems? : Nat → List Char → Option (List Json × List Char)
  | 0, _ => none
  | fuel + 1, cs => do
    let (item, cs) ← scanValue? fuel cs
    match skipBlanks cs with
    | ']' :: after => return ([item], after)
    | ',' :: rest =>
      let (items, after) ← scanItems? fuel rest
      return (item :: items, after)
    | _ => none

/-- The members of an object, at least one, up to the closing brace. -/
def scanMembers? : Nat → List Char → Option (List (Option String × Json) × List Char)
  | 0, _ => none
  | fuel + 1, cs =>
    match skipBlanks cs with
    | '"' :: rest => do
      let (name, cs) ← scanString? rest
      match skipBlanks cs with
      | ':' :: rest =>
        let (value, cs) ← scanValue? fuel rest
        match skipBlanks cs with
        | '\x7d' :: after => return ([(name, value)], after)
        | ',' :: rest =>
          let (members, after) ← scanMembers? fuel rest
          return ((name, value) :: members, after)
        | _ => none
      | _ => none
    | _ => none

end

/-- The value that a whole text writes. -/
def readChars? (cs : List Char) : Option Json :=
  match scanValue? (2 * cs.length + 2) cs with
  | some (value, rest) => if skipBlanks rest = [] then some value else none
  | none => none

/-- The value that a whole text writes. -/
def read? (s : String) : Option Json := readChars? s.toList

end SettingProfiles.Json
