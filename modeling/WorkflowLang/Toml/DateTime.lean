import WorkflowLang.Toml.Number

/-!
# Dates and times of TOML

A date may be followed by a time, and a time on a date by its distance from
universal time; a time may also stand alone.  Only whether a date or time is
valid matters, so none is kept.
-/

namespace WorkflowLang
namespace Toml

/-- A number of exactly so many decimal digits within bounds. -/
def boundedNumber (digitCount least greatest : Nat) : Reader Nat := do
  let digits ← (List.replicate digitCount ()).mapM fun _ =>
    Reader.satisfying Char.isDigit
  let value := Text.decimalValue 0 digits
  guard (least ≤ value && value ≤ greatest)
  return value

/-- Every fourth year is a leap year, but of the full centuries only every
fourth. -/
def isLeapYear (year : Nat) : Bool :=
  year % 4 == 0 && (year % 100 != 0 || year % 400 == 0)

def daysInMonth (year month : Nat) : Nat :=
  if month = 2 then if isLeapYear year then 29 else 28
  else if month = 4 || month = 6 || month = 9 || month = 11 then 30
  else 31

def date : Reader Unit := do
  let year ← boundedNumber 4 0 9999
  let _ ← Reader.char '-'
  let month ← boundedNumber 2 1 12
  let _ ← Reader.char '-'
  discard (boundedNumber 2 1 (daysInMonth year month))

def hoursAndMinutes : Reader Unit := do
  let _ ← boundedNumber 2 0 23
  let _ ← Reader.char ':'
  discard (boundedNumber 2 0 59)

/-- A time of day, whose minute may end with a leap second. -/
def time : Reader Unit := do
  hoursAndMinutes
  let _ ← Reader.char ':'
  let _ ← boundedNumber 2 0 60
  let _ ← optional do
    let _ ← Reader.char '.'
    Reader.someRun Char.isDigit

/-- The distance of a time from universal time. -/
def offset : Reader Unit :=
  discard (Reader.satisfying fun mark => mark == 'Z' || mark == 'z') <|> do
    let _ ← Reader.char '+' <|> Reader.char '-'
    hoursAndMinutes

def isTimeMark (character : Char) : Bool :=
  character == 'T' || character == 't' || character == ' '

def dateTime : Reader Unit :=
  (do
    date
    let _ ← optional do
      let _ ← Reader.satisfying isTimeMark
      time
      optional offset) <|> time

end Toml
end WorkflowLang
