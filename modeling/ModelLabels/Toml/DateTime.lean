import ModelLabels.Text.Reader
/-! # Dates and times

A date has a year of four digits, a month and a day that the month has.  A time has hours, minutes and
seconds, of which there may be sixty, and may have a fraction.  A date may be followed by a time, and
then by an offset.
-/

namespace ModelLabels.Toml
set_option autoImplicit false

open Reader

/-- A number of exactly `digits` decimal digits within bounds. -/
def fixedNumber (digits low high : Nat) : Reader Nat := do
  let cs ← times digits (satisfy Char.isDigit)
  let n := cs.foldl (fun n c => n * 10 + (c.toNat - 0x30)) 0
  if low ≤ n ∧ n ≤ high then return n else failure

/-- Whether a year has a day more than others. -/
def isLeapYear (year : Nat) : Bool := year % 4 = 0 && (year % 100 ≠ 0 || year % 400 = 0)

/-- The number of days of a month. -/
def daysOfMonth (year month : Nat) : Nat :=
  if month = 2 then (if isLeapYear year then 29 else 28)
  else if month = 4 ∨ month = 6 ∨ month = 9 ∨ month = 11 then 30
  else 31

/-- A date. -/
def date : Reader Unit := do
  let year ← fixedNumber 4 0 9999
  char '-'
  let month ← fixedNumber 2 1 12
  char '-'
  let _ ← fixedNumber 2 1 (daysOfMonth year month)

/-- A time of day. -/
def timeOfDay : Reader Unit := do
  let _ ← fixedNumber 2 0 23
  char ':'
  let _ ← fixedNumber 2 0 59
  char ':'
  let _ ← fixedNumber 2 0 60
  let _ ← optional? (do char '.'; let _ ← satisfy Char.isDigit; takeWhile Char.isDigit)

/-- The distance of a time from the prime meridian's. -/
def offset : Reader Unit :=
  (do let _ ← satisfy fun c => c == 'Z' || c == 'z')
  <|> (do
    let _ ← satisfy fun c => c == '+' || c == '-'
    let _ ← fixedNumber 2 0 23
    char ':'
    let _ ← fixedNumber 2 0 59)

/-- A date, a date with a time, or a time. -/
def dateTime : Reader Unit :=
  (do
    date
    let _ ← optional? (do
      let _ ← satisfy fun c => c == 'T' || c == 't' || c == ' '
      timeOfDay
      optional? offset))
  <|> timeOfDay

end ModelLabels.Toml
