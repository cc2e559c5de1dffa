import LineScript.Board.Calendar
import LineScript.Power
/-!
# The clock

A clock counts microseconds. How many pass before each reading is given from
outside; for a stepped clock it is always the same number. What it shows is a
base moment plus the time since the base was set; setting the date or the time
keeps the other as it is shown, and reads the clock once to know it and once
more to start counting from there.
-/

namespace LineScript

/-- What a clock shows. -/
structure Timestamp where
  date : Date
  /-- Days since Sunday. -/
  weekday : Nat
  hour : Nat
  minute : Nat
  second : Nat
  micro : Nat
deriving DecidableEq

/-- A clock: the microseconds it has counted, and the moment it showed when it
had counted `origin` of them. -/
structure Clock where
  base : Moment := ⟨Date.toDays ⟨2000, 1, 1⟩, 0, 0⟩
  origin : Nat := 0
  elapsed : Nat := 0
  /-- How often it was read. -/
  readings : Nat := 0
  /-- The microseconds that pass before a reading, by the number of those before it. -/
  passing : Nat → Nat

namespace Clock

/-- A clock that advances by a fixed step every time it is read. -/
def stepped (step : Nat) : Clock := { passing := fun _ => step }

/-- What the next reading counts to. -/
def next (c : Clock) : Nat := c.elapsed + c.passing c.readings

/-- Reads the microseconds counted. -/
def micros (c : Clock) : Nat × Clock :=
  (c.next, { c with elapsed := c.next, readings := c.readings + 1 })

/-- The moment shown when `elapsed` microseconds are counted. Spans are signed
64-bit counts, and one that leaves the calendar shows the base. -/
def shown (c : Clock) (elapsed : Nat) : Moment :=
  (c.base.add (Int.bmod (elapsed - c.origin : Nat) (2 ^ 64))).getD c.base

/-- Reads the moment shown. -/
def current (c : Clock) : Moment × Clock :=
  let (elapsed, c) := c.micros
  (c.shown elapsed, c)

/-- Starts to count from a new base. -/
def rebase (c : Clock) (base : Moment) : Clock :=
  let (origin, c) := c.micros
  { c with base, origin }

/-- Sets the date; one that does not exist is ignored. -/
def setDate (c : Clock) (d : Date) : Clock :=
  let (now, c) := c.current
  if d.isValid then c.rebase { now with day := d.toDays } else c

/-- Sets the time of day; one that does not exist is ignored. -/
def setTime (c : Clock) (hour minute second micro : Nat) : Clock :=
  let (now, c) := c.current
  if Moment.isTime hour minute second micro then
    c.rebase { now with second := (hour * 60 + minute) * 60 + second, micro }
  else c

/-- A moment as a clock shows it. In a leap second the microseconds start over. -/
def Timestamp.of (m : Moment) : Timestamp :=
  { date := Date.ofDays m.day
    weekday := Date.weekday m.day
    hour := m.second / 3600
    minute := m.second / 60 % 60
    second := m.second % 60
    micro := m.micro % Moment.microsPerSecond }

/-- Reads the date and time. -/
def now (c : Clock) : Timestamp × Clock :=
  let (m, c) := c.current
  (Timestamp.of m, c)

end Clock

/-- The numbers of a timestamp, from the year to the microsecond; the day of
the week stands between the month and the day. -/
def Timestamp.fields (t : Timestamp) : List Int :=
  [t.date.year, t.date.month, t.weekday, t.date.day, t.hour, t.minute, t.second, t.micro]

end LineScript
