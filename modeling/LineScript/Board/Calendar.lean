/-!
# Dates and times

The proleptic Gregorian calendar, and moments of it to the microsecond. Days
are numbered from the first of March of year 0, so that the leap day is the
last day of a year that is counted from March.

A minute may end in a leap second. It is written as second 59 with a million
microseconds or more, and it lasts as long as time stays inside it; leaving it
takes the extra second off first.
-/

namespace LineScript

/-- A date. -/
structure Date where
  year : Int
  month : Nat
  day : Nat
deriving DecidableEq

namespace Date

/-- The years the calendar covers. -/
def firstYear : Int := -262143

/-- The last of the years the calendar covers. -/
def lastYear : Int := 262142

/-- Whether a year has a leap day. -/
def isLeapYear (year : Int) : Bool := year % 4 = 0 && (year % 100 ≠ 0 || year % 400 = 0)

/-- The days of a month. -/
def daysInMonth (year : Int) (month : Nat) : Nat :=
  match month with
  | 2 => if isLeapYear year then 29 else 28
  | 4 | 6 | 9 | 11 => 30
  | _ => 31

/-- Whether the calendar has this date. -/
def isValid (d : Date) : Bool :=
  firstYear ≤ d.year && d.year ≤ lastYear && 1 ≤ d.month && d.month ≤ 12 &&
    1 ≤ d.day && d.day ≤ daysInMonth d.year d.month

/-- The days of four hundred years. -/
def daysPerCycle : Int := 146097

/-- The number of a date: of days since the first of March of year 0. -/
def toDays (d : Date) : Int :=
  let year := if d.month ≤ 2 then d.year - 1 else d.year
  -- months counted from March
  let month : Int := (d.month + 9) % 12
  year * 365 + year / 4 - year / 100 + year / 400 + (153 * month + 2) / 5 + d.day - 1

/-- The date with a number. -/
def ofDays (days : Int) : Date :=
  let cycle := days / daysPerCycle
  let day := days % daysPerCycle
  let year := (day - day / 1460 + day / 36524 - day / 146096) / 365
  let dayOfYear := day - (365 * year + year / 4 - year / 100)
  let month := (5 * dayOfYear + 2) / 153
  { year := cycle * 400 + year + if month < 10 then 0 else 1
    month := (if month < 10 then month + 3 else month - 9).toNat
    day := (dayOfYear - (153 * month + 2) / 5 + 1).toNat }

/-- The day of the week, Sunday being 0: day 0 is a Wednesday. -/
def weekday (days : Int) : Nat := ((days + 3) % 7).toNat

end Date

/-- A moment: the number of its day, the second of that day, and microseconds,
which go past a million in a leap second. -/
structure Moment where
  day : Int
  second : Nat
  micro : Nat
deriving DecidableEq

namespace Moment

/-- The microseconds of a second. -/
def microsPerSecond : Nat := 1000000

/-- The seconds of a day. -/
def secondsPerDay : Nat := 86400

/-- Whether a clock shows this time. -/
def isTime (hour minute second micro : Nat) : Bool :=
  hour < 24 && minute < 60 && second < 60 && micro < 2 * microsPerSecond &&
    (micro < microsPerSecond || second = 59)

/-- The moment so many seconds and microseconds after `second` and `micro` of
day `day`, if the calendar has it. -/
def carry (day second micro : Int) : Option Moment :=
  let second := second + micro / microsPerSecond
  let day := day + second / secondsPerDay
  if (Date.toDays ⟨Date.firstYear, 1, 1⟩ : Int) ≤ day ∧ day ≤ Date.toDays ⟨Date.lastYear, 12, 31⟩ then
    some ⟨day, (second % secondsPerDay).toNat, (micro % microsPerSecond).toNat⟩
  else none

/-- The moment so many microseconds later, or earlier if they are negative. -/
def add (m : Moment) (micros : Int) : Option Moment :=
  let seconds := micros.tdiv microsPerSecond
  let rest := micros.tmod microsPerSecond
  if m.micro < microsPerSecond then carry m.day (m.second + seconds) (m.micro + rest)
  -- inside a leap second
  else if 0 < seconds ∨ 2 * (microsPerSecond : Int) ≤ m.micro + rest then
    carry m.day (m.second + seconds) (m.micro - microsPerSecond + rest)
  else if seconds < 0 then
    carry m.day (m.second + 1 + seconds) (m.micro - microsPerSecond + rest)
  else some { m with micro := (m.micro + rest).toNat }

end Moment

end LineScript
