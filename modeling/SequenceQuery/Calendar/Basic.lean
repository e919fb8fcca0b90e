namespace SequenceQuery

structure Date where
  year : Int
  month : Nat
  day : Nat
  deriving DecidableEq

/-- A leap second is the last second of a minute with a billion nanoseconds or more. -/
structure TimeOfDay where
  hour : Nat
  minute : Nat
  second : Nat
  nanos : Nat
  deriving DecidableEq

structure Timestamp where
  date : Date
  time : TimeOfDay
  deriving DecidableEq

namespace Date

def minYear : Int := -262143
def maxYear : Int := 262142

def isLeapYear (year : Int) : Bool :=
  year % 4 == 0 && (year % 100 != 0 || year % 400 == 0)

def daysInMonth (year : Int) (month : Nat) : Nat :=
  if month = 2 then if isLeapYear year then 29 else 28
  else if month = 4 ∨ month = 6 ∨ month = 9 ∨ month = 11 then 30 else 31

def of? (year : Int) (month day : Nat) : Option Date :=
  if minYear ≤ year ∧ year ≤ maxYear ∧ 1 ≤ month ∧ month ≤ 12 ∧ 1 ≤ day ∧
      day ≤ daysInMonth year month then
    some ⟨year, month, day⟩
  else none

/-- Days from 1 January 2000. Years are counted from March on, so that a leap day comes last. -/
def toDays (d : Date) : Int :=
  let y := if d.month ≤ 2 then d.year - 1 else d.year
  let fromMarch : Int := ((d.month + 9) % 12 : Nat)
  let dayOfYear := (153 * fromMarch + 2) / 5 + d.day - 1
  365 * y + y / 4 - y / 100 + y / 400 + dayOfYear - 730425

/-- The date that many days from 1 January 2000, if the calendar reaches it. -/
def ofDays? (days : Int) : Option Date :=
  let shifted := days + 730425
  let era := shifted / 146097
  let dayOfEra := shifted % 146097
  let yearOfEra := (dayOfEra - dayOfEra / 1460 + dayOfEra / 36524 - dayOfEra / 146096) / 365
  let dayOfYear := dayOfEra - (365 * yearOfEra + yearOfEra / 4 - yearOfEra / 100)
  let fromMarch := (5 * dayOfYear + 2) / 153
  let day := (dayOfYear - (153 * fromMarch + 2) / 5 + 1).toNat
  let month := (if fromMarch < 10 then fromMarch + 3 else fromMarch - 9).toNat
  let year := yearOfEra + era * 400 + (if month ≤ 2 then 1 else 0)
  of? year month day

end Date

/-- At least so many digits, with zeros in front. -/
def padLeft (width n : Nat) : String :=
  let ds := Nat.toDigits 10 n
  String.ofList (List.replicate (width - ds.length) '0' ++ ds)

namespace Date

/-- Years outside 0 to 9999 carry a sign. -/
def display (d : Date) : String :=
  let year :=
    if 0 ≤ d.year ∧ d.year ≤ 9999 then padLeft 4 d.year.toNat
    else (if d.year < 0 then "-" else "+") ++ padLeft 4 d.year.natAbs
  year ++ "-" ++ padLeft 2 d.month ++ "-" ++ padLeft 2 d.day

end Date

namespace TimeOfDay

def seconds (t : TimeOfDay) : Nat := t.hour * 3600 + t.minute * 60 + t.second

def ofSeconds (seconds nanos : Nat) : TimeOfDay :=
  ⟨seconds / 3600, seconds / 60 % 60, seconds % 60, nanos⟩

/-- The time that many microseconds after midnight, past any number of midnights. -/
def ofMicros (micros : Int) : TimeOfDay :=
  let inDay := (micros % 86400000000).toNat
  ofSeconds (inDay / 1000000) (inDay % 1000000 * 1000)

/-- The fraction has no digits, or as many of 3, 6 and 9 as it needs. -/
def display (t : TimeOfDay) : String :=
  let (second, nanos) :=
    if 1000000000 ≤ t.nanos then (t.second + 1, t.nanos - 1000000000) else (t.second, t.nanos)
  let fraction :=
    if nanos = 0 then ""
    else if nanos % 1000000 = 0 then "." ++ padLeft 3 (nanos / 1000000)
    else if nanos % 1000 = 0 then "." ++ padLeft 6 (nanos / 1000)
    else "." ++ padLeft 9 nanos
  padLeft 2 t.hour ++ ":" ++ padLeft 2 t.minute ++ ":" ++ padLeft 2 second ++ fraction

end TimeOfDay

namespace Timestamp

/-- Nanoseconds from the start of the year 2000; a leap second counts as the second after it. -/
def toNanos (t : Timestamp) : Int :=
  (t.date.toDays * 86400 + t.time.seconds) * 1000000000 + t.time.nanos

/-- Whole microseconds from the start of the year 2000, cut towards it. -/
def toMicros (t : Timestamp) : Int := t.toNanos.tdiv 1000

def ofMicros? (micros : Int) : Option Timestamp := do
  let date ← Date.ofDays? (micros / 86400000000)
  return ⟨date, .ofMicros micros⟩

/-- The same moment read on a clock that is that many seconds behind. -/
def minusSeconds? (t : Timestamp) (offset : Int) : Option Timestamp := do
  let seconds := t.date.toDays * 86400 + t.time.seconds - offset
  let date ← Date.ofDays? (seconds / 86400)
  return ⟨date, .ofSeconds (seconds % 86400).toNat t.time.nanos⟩

def display (t : Timestamp) : String := t.date.display ++ " " ++ t.time.display

def displayUtc (t : Timestamp) : String := t.display ++ " UTC"

end Timestamp

end SequenceQuery
