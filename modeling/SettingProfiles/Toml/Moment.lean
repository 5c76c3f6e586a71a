/-
SettingProfiles.Toml.Moment — dates and times.

Dates and times are those of RFC 3339, also each without the other and
without an offset from universal time. One moment can be written in several
ways; `text` writes it in one: with `T` between date and time, with `Z` for
universal time, with at most nine digits behind a second and no zero at the
end of them.

  §1 Moments
  §2 Writing
  §3 Reading
-/
import SettingProfiles.Decimal.Digit
import SettingProfiles.Text.Pieces

namespace SettingProfiles

/-! ## §1 Moments -/

/-- A day of the calendar. -/
structure Date where
  year : Nat
  month : Nat
  day : Nat
  deriving DecidableEq

/-- The fraction of a second: at most nine digits, the last of them not zero. -/
structure SecondFraction where
  digits : List Digit
  length_le : digits.length ≤ 9
  getLast?_ne : digits.getLast? ≠ some Digit.zero
  deriving DecidableEq

/-- A time of day. -/
structure TimeOfDay where
  hour : Nat
  minute : Nat
  second : Nat
  fraction : SecondFraction
  deriving DecidableEq

/-- An offset from universal time. -/
inductive Offset where
  | universal
  | minutes (m : Int)
  deriving DecidableEq

/-- A date, a time of day, or both. -/
inductive Moment where
  | date (d : Date)
  | time (t : TimeOfDay)
  | dateTime (d : Date) (t : TimeOfDay) (offset : Option Offset)
  deriving DecidableEq

/-! ## §2 Writing -/

/-- A number with zeros in front up to a width. -/
def paddedText (width n : Nat) : String := String.ofList (Digits.toChars (Digits.padded width n))

def Date.text (d : Date) : String :=
  paddedText 4 d.year ++ "-" ++ paddedText 2 d.month ++ "-" ++ paddedText 2 d.day

/-- A whole second is written without a point. -/
def SecondFraction.text (f : SecondFraction) : String :=
  if f.digits = [] then "" else "." ++ String.ofList (Digits.toChars f.digits)

def TimeOfDay.text (t : TimeOfDay) : String :=
  paddedText 2 t.hour ++ ":" ++ paddedText 2 t.minute ++ ":" ++ paddedText 2 t.second
    ++ t.fraction.text

/-- An offset of no minutes is written with a plus. -/
def Offset.text : Offset → String
  | .universal => "Z"
  | .minutes m =>
    let sign := if m < 0 then "-" else "+"
    sign ++ paddedText 2 (m.natAbs / 60) ++ ":" ++ paddedText 2 (m.natAbs % 60)

def Moment.text : Moment → String
  | .date d => d.text
  | .time t => t.text
  | .dateTime d t offset => d.text ++ "T" ++ t.text ++ (offset.map Offset.text).getD ""

/-! ## §3 Reading -/

/-- The number that the next digits write, as many as asked for. -/
def fixedDigits? (count : Nat) (cs : List Char) : Option (Nat × List Char) :=
  let chars := cs.take count
  if chars.length = count then
    (Digits.ofChars? chars).map fun ds => (Digits.value ds, cs.drop count)
  else none

/-- Two digits of a number within bounds. -/
def twoDigits? (least most : Nat) (cs : List Char) : Option (Nat × List Char) :=
  (fixedDigits? 2 cs).filter fun (n, _) => least ≤ n && n ≤ most

def isLeapYear (year : Nat) : Bool := year % 4 = 0 && (year % 100 ≠ 0 || year % 400 = 0)

def daysOfMonth (year month : Nat) : Nat :=
  if month = 2 then if isLeapYear year then 29 else 28
  else if month ∈ [4, 6, 9, 11] then 30
  else 31

/-- A date at the beginning of the text. -/
def Date.read? (cs : List Char) : Option (Date × List Char) := do
  let (year, cs) ← fixedDigits? 4 cs
  let (month, cs) ← twoDigits? 1 12 (← Text.behind? '-' cs)
  let (day, cs) ← twoDigits? 1 (daysOfMonth year month) (← Text.behind? '-' cs)
  return (⟨year, month, day⟩, cs)

namespace SecondFraction

/-- There is no fraction. -/
def whole : SecondFraction := ⟨[], by decide, by decide⟩

/-- The digits of a fraction that count: the first nine, without the zeros at their
end. -/
def ofDigits (ds : List Digit) : SecondFraction where
  digits := ((ds.take 9).reverse.dropWhile (· = Digit.zero)).reverse
  length_le := by
    have h := (List.dropWhile_sublist (l := (ds.take 9).reverse) (· = Digit.zero)).length_le
    rw [List.length_reverse, List.length_take] at h
    rw [List.length_reverse]
    omega
  getLast?_ne := by
    intro h
    have hd := List.head?_dropWhile_not (· = Digit.zero) (ds.take 9).reverse
    rw [List.getLast?_reverse] at h
    rw [h] at hd
    simp at hd

/-- The fraction of a second, if one is next. -/
def read (cs : List Char) : SecondFraction × List Char :=
  match cs with
  | '.' :: rest =>
    match Digits.span rest with
    | ([], _) => (whole, cs)
    | (ds, after) => (ofDigits ds, after)
  | _ => (whole, cs)

end SecondFraction

/-- A time of day at the beginning of the text. A minute may end in a leap second. -/
def TimeOfDay.read? (cs : List Char) : Option (TimeOfDay × List Char) := do
  let (hour, cs) ← twoDigits? 0 23 cs
  let (minute, cs) ← twoDigits? 0 59 (← Text.behind? ':' cs)
  let (second, cs) ← twoDigits? 0 60 (← Text.behind? ':' cs)
  let (fraction, cs) := SecondFraction.read cs
  return (⟨hour, minute, second, fraction⟩, cs)

/-- The minutes of an offset behind its sign. -/
def offsetMinutes? (cs : List Char) : Option (Nat × List Char) := do
  let (hours, cs) ← twoDigits? 0 23 cs
  let (minutes, cs) ← twoDigits? 0 59 (← Text.behind? ':' cs)
  return (60 * hours + minutes, cs)

/-- An offset at the beginning of the text. -/
def Offset.read? : List Char → Option (Offset × List Char)
  | 'Z' :: rest | 'z' :: rest => some (.universal, rest)
  | '+' :: rest => (offsetMinutes? rest).map fun (m, after) => (.minutes m, after)
  | '-' :: rest => (offsetMinutes? rest).map fun (m, after) => (.minutes (-(m : Int)), after)
  | _ => none

/-- The date with the time of day and the offset that follow it, as far as they
do. -/
def Date.withTime (d : Date) (cs : List Char) : Moment × List Char :=
  match cs with
  | c :: rest =>
    if c = 'T' || c = 't' || c = ' ' then
      match TimeOfDay.read? rest with
      | some (t, after) =>
        match Offset.read? after with
        | some (offset, after) => (.dateTime d t (some offset), after)
        | none => (.dateTime d t none, after)
      | none => (.date d, cs)
    else (.date d, cs)
  | [] => (.date d, [])

/-- A date or a time at the beginning of the text. -/
def Moment.read? (cs : List Char) : Option (Moment × List Char) :=
  match Date.read? cs with
  | some (d, after) => some (d.withTime after)
  | none => (TimeOfDay.read? cs).map fun (t, after) => (.time t, after)

end SettingProfiles
