import MarkedEdits.Toml.Number

/-!
# TOML dates and times

A date is a year, a month and a day that the month has. A time is an hour and a minute, which may
be followed by seconds and a fraction of a second. A date and a time together may have an offset
from universal time.
-/

namespace MarkedEdits

namespace Toml

/-- The number of exactly `width` decimal digits at the front of the text. -/
def readFixed (width : Nat) (t : Text) : Option (Nat × Text) :=
  let digits := t.take width
  if digits.length = width ∧ digits.all Char.isDigit then
    some (ofDigits 10 (digits.filterMap digitValue), t.drop width)
  else none

/-- What follows the character at the front of the text. -/
def readChar (c : Char) : Text → Option Text
  | [] => none
  | first :: rest => if first = c then some rest else none

/-- The number of days of the month. -/
def daysIn (year month : Nat) : Nat :=
  if month = 2 then
    if year % 4 = 0 ∧ (year % 100 ≠ 0 ∨ year % 400 = 0) then 29 else 28
  else if month = 4 ∨ month = 6 ∨ month = 9 ∨ month = 11 then 30
  else 31

/-- What follows the date at the front of the text. -/
def readDate (t : Text) : Option Text := do
  let (year, rest) ← readFixed 4 t
  let (month, rest) ← readFixed 2 (← readChar '-' rest)
  let (day, rest) ← readFixed 2 (← readChar '-' rest)
  if 1 ≤ month ∧ month ≤ 12 ∧ 1 ≤ day ∧ day ≤ daysIn year month then some rest else none

/-- What follows the fraction of a second, if there is one at the front of the text. -/
def readFraction : Text → Option Text
  | '.' :: rest =>
      if rest.head?.any Char.isDigit then some (rest.dropWhile Char.isDigit) else none
  | rest => some rest

/-- What follows the hour and the minute at the front of the text. -/
def readHourMinute (t : Text) : Option Text := do
  let (hour, rest) ← readFixed 2 t
  let (minute, rest) ← readFixed 2 (← readChar ':' rest)
  if hour ≤ 23 ∧ minute ≤ 59 then some rest else none

/-- What follows the time at the front of the text. -/
def readTime (t : Text) : Option Text := do
  match ← readHourMinute t with
  | ':' :: rest =>
      let (second, rest) ← readFixed 2 rest
      if second ≤ 60 then readFraction rest else none
  | rest => some rest

/-- The whole text is an offset from universal time, or empty. -/
def isOffset : Text → Bool
  | [] => true
  | ['Z'] | ['z'] => true
  | '+' :: rest | '-' :: rest => readHourMinute rest == some []
  | _ => false

/-- The whole text is a date, a time, or a date and a time. -/
def isDateTime (t : Text) : Bool :=
  match readDate t with
  | none => readTime t == some []
  | some [] => true
  | some (separator :: rest) =>
      (separator == 'T' || separator == 't' || separator == ' ') && (readTime rest).any isOffset

end Toml

end MarkedEdits
