import LineScript.Board.Calendar
import Mathlib.Tactic.IntervalCases
/-!
# Dates and their numbers

Every number is that of one date, and every date of the calendar is found
again from its number (`Date.ofDays_toDays`, `Date.toDays_ofDays`). Both
directions go through the place of a day in a cycle of four hundred years
(`InCycle`): its century, its four years, its year and its number in a year
that is counted from March.
-/

namespace LineScript

namespace Date

variable {a b r last n : Int}

/-! ## Cycles -/

/-- The year of a day in a cycle of four hundred, counted from March. -/
def yearOfCycle (n : Int) : Int := (n - n / 1460 + n / 36524 - n / 146096) / 365

/-- Day `n` of a cycle of four hundred years is day `last` of year `r` of four
years `b` of century `a`. -/
structure InCycle (a b r last n : Int) : Prop where
  century : 0 ≤ a ∧ a ≤ 3
  four : 0 ≤ b ∧ b ≤ 24
  year : 0 ≤ r ∧ r ≤ 3
  day : 0 ≤ last ∧ last ≤ 365
  leap : last = 365 → r = 3 ∧ (b = 24 → a = 3)
  whole : n = 36524 * a + 1461 * b + 365 * r + last

/-- Every day of a cycle has its place. The fourth year and the fourth century
may be a day longer than the others, so neither is found by division alone. -/
theorem exists_inCycle (low : 0 ≤ n) (high : n < daysPerCycle) :
    ∃ a b r last, InCycle a b r last n := by
  rw [daysPerCycle] at high
  obtain ⟨a, century⟩ : ∃ a, a = min (n / 36524) 3 := ⟨_, rfl⟩
  obtain ⟨b, four⟩ : ∃ b, b = (n - 36524 * a) / 1461 := ⟨_, rfl⟩
  obtain ⟨r, year⟩ : ∃ r, r = min ((n - 36524 * a - 1461 * b) / 365) 3 := ⟨_, rfl⟩
  refine ⟨a, b, r, n - 36524 * a - 1461 * b - 365 * r, ?_⟩
  constructor <;> omega

namespace InCycle

theorem bounds (h : InCycle a b r last n) : 0 ≤ n ∧ n < daysPerCycle := by
  obtain ⟨century, four, year, day, leap, whole⟩ := h
  rw [daysPerCycle]
  omega

/-- The leap days before a year: one in four, but for every hundredth. -/
theorem quarter (h : InCycle a b r last n) : (100 * a + 4 * b + r) / 4 = 25 * a + b := by
  have year := h.year
  omega

theorem hundredth (h : InCycle a b r last n) : (100 * a + 4 * b + r) / 100 = a := by
  have four := h.four
  have year := h.year
  omega

/-- The place of a year in its cycle. -/
theorem year_parts (h : InCycle a b r last n) (c : Int) :
    (400 * c + (100 * a + 4 * b + r)) / 400 = c ∧
      (400 * c + (100 * a + 4 * b + r)) % 400 / 100 = a ∧
      (400 * c + (100 * a + 4 * b + r)) % 100 / 4 = b ∧
      (400 * c + (100 * a + 4 * b + r)) % 4 = r := by
  have century := h.century
  have four := h.four
  have year := h.year
  have inCycle : (400 * c + (100 * a + 4 * b + r)) % 400 = 100 * a + 4 * b + r := by omega
  have inCentury : (400 * c + (100 * a + 4 * b + r)) % 100 = 4 * b + r := by omega
  rw [inCycle, inCentury]
  omega

/-- **The year of a day** is the one it is in. -/
theorem yearOfCycle_eq (h : InCycle a b r last n) :
    yearOfCycle n = 100 * a + 4 * b + r := by
  obtain ⟨century, four, year, day, leap, whole⟩ := h
  unfold yearOfCycle
  -- the last day of a cycle would be the first of a fifth century
  by_cases closing : n = 146096
  · subst closing
    omega
  · have fours : n / 1460 = 25 * a + b ∨ n / 1460 = 25 * a + b + 1 ∧ 1 ≤ last := by omega
    have leaps : last = 365 → n / 1460 = 25 * a + b + 1 := by omega
    have hundreds : n / 36524 = a := by omega
    have none : n / 146096 = 0 := by omega
    omega

end InCycle

/-! ## Months -/

/-- Where a month begins, months being counted from March. -/
def monthStart (m : Int) : Int := (153 * m + 2) / 5

/-- Day `k` of month `m`, counted from March, is one that year `y` has. -/
structure InMonth (y m k : Int) : Prop where
  month : 0 ≤ m ∧ m ≤ 11
  day : 1 ≤ k ∧ k ≤ 31
  short : k = 31 → m ≠ 1 ∧ m ≠ 3 ∧ m ≠ 6 ∧ m ≠ 8
  february : m = 11 → k ≤ 29
  leap : m = 11 → k = 29 → isLeapYear (y + 1) = true

theorem isLeapYear_iff (year : Int) :
    isLeapYear year = true ↔ year % 4 = 0 ∧ (year % 100 = 0 → year % 400 = 0) := by
  simp only [isLeapYear, Bool.and_eq_true, Bool.or_eq_true, decide_eq_true_eq]
  omega

namespace InMonth

variable {y m k : Int}

/-- **The month of a day of the year** is found again from the day. -/
theorem month_of_last (h : InMonth y m k) :
    (5 * (monthStart m + k - 1) + 2) / 153 = m := by
  obtain ⟨⟨low, high⟩, day, short, february, -⟩ := h
  unfold monthStart
  interval_cases m <;> omega

/-- Where the day is in its cycle. -/
theorem inCycle (h : InMonth y m k) :
    InCycle (y % 400 / 100) (y % 100 / 4) (y % 4) (monthStart m + k - 1)
      (36524 * (y % 400 / 100) + 1461 * (y % 100 / 4) + 365 * (y % 4) +
        (monthStart m + k - 1)) := by
  obtain ⟨month, day, short, february, leap⟩ := h
  unfold monthStart
  refine ⟨?_, ?_, ?_, ?_, fun closing => ?_, rfl⟩
  · omega
  · omega
  · omega
  · omega
  · have := (isLeapYear_iff (y + 1)).1 (leap (by omega) (by omega))
    omega

end InMonth

/-- What it says of a day that its month has it. -/
theorem le_daysInMonth {year : Int} {month day : Nat} (h : day ≤ daysInMonth year month) :
    day ≤ 31 ∧ (day = 31 → month ≠ 4 ∧ month ≠ 6 ∧ month ≠ 9 ∧ month ≠ 11) ∧
      (month = 2 → day ≤ 29) ∧ (month = 2 → day = 29 → isLeapYear year = true) := by
  unfold daysInMonth at h
  split at h
  · split at h
    · next leap => exact ⟨by omega, by omega, by omega, fun _ _ => leap⟩
    · exact ⟨by omega, by omega, by omega, by omega⟩
  · exact ⟨by omega, by omega, by omega, by omega⟩
  · exact ⟨by omega, by omega, by omega, by omega⟩
  · exact ⟨by omega, by omega, by omega, by omega⟩
  · exact ⟨by omega, by omega, by omega, by omega⟩
  · next february april june september november =>
    exact ⟨h, fun _ => ⟨april, june, september, november⟩, fun is => absurd is february,
      fun is => absurd is february⟩

/-! ## Dates -/

/-- The year and the month of a date, counted from March. -/
def Counted (d : Date) (y m : Int) : Prop :=
  0 ≤ m ∧ m < 10 ∧ d.year = y ∧ d.month = m + 3 ∨
    10 ≤ m ∧ m < 12 ∧ d.year = y + 1 ∧ d.month = m - 9

theorem exists_inMonth {d : Date} (h : d.isValid = true) :
    ∃ y m : Int, d.Counted y m ∧ InMonth y m d.day := by
  simp only [isValid, Bool.and_eq_true, decide_eq_true_eq] at h
  obtain ⟨⟨⟨⟨-, first⟩, twelfth⟩, one⟩, within⟩ := h
  obtain ⟨most, short, february, leap⟩ := le_daysInMonth within
  rcases Nat.lt_or_ge 2 d.month with late | early
  · exact ⟨d.year, d.month - 3, .inl (by omega), by omega, by omega, by omega, by omega, by omega⟩
  · refine ⟨d.year - 1, d.month + 9, .inr (by omega), by omega, by omega, by omega, by omega, ?_⟩
    intro is twentyNine
    rw [Int.sub_add_cancel]
    exact leap (by omega) (by omega)

/-- **The number of a date**, by its place in its cycle. -/
theorem toDays_eq {d : Date} {y m : Int} (counted : d.Counted y m) :
    d.toDays = daysPerCycle * (y / 400) +
      (36524 * (y % 400 / 100) + 1461 * (y % 100 / 4) + 365 * (y % 4) +
        (monthStart m + d.day - 1)) := by
  unfold Counted at counted
  have month : ((d.month : Int) + 9) % 12 = m := by omega
  have year : (if d.month ≤ 2 then d.year - 1 else d.year) = y := by
    split <;> omega
  unfold toDays daysPerCycle monthStart
  dsimp only
  rw [month, year]
  omega

/-- The date of a day of a cycle. -/
theorem ofDays_eq (h : InCycle a b r last n) (c : Int) :
    ofDays (daysPerCycle * c + n) =
      let m := (5 * last + 2) / 153
      { year := 400 * c + (100 * a + 4 * b + r) + if m < 10 then 0 else 1
        month := (if m < 10 then m + 3 else m - 9).toNat
        day := (last - monthStart m + 1).toNat } := by
  have cycle : (daysPerCycle * c + n) / daysPerCycle = c := by
    have bounds := h.bounds
    unfold daysPerCycle at bounds ⊢
    omega
  have within : (daysPerCycle * c + n) % daysPerCycle = n := by
    have bounds := h.bounds
    unfold daysPerCycle at bounds ⊢
    omega
  have year := h.yearOfCycle_eq
  unfold yearOfCycle at year
  unfold ofDays
  rw [cycle, within]
  dsimp only
  rw [year, h.quarter, h.hundredth]
  have rest : n - (365 * (100 * a + 4 * b + r) + (25 * a + b) - a) = last := by
    have whole := h.whole
    omega
  rw [rest, Int.mul_comm 400]
  rfl

/-- A year is put together again from its place in its cycle. -/
theorem year_eq (y : Int) :
    400 * (y / 400) + (100 * (y % 400 / 100) + 4 * (y % 100 / 4) + y % 4) = y := by
  have centuries : y / 100 = 4 * (y / 400) + y % 400 / 100 := by omega
  have fours : y / 4 = 25 * (y / 100) + y % 100 / 4 := by omega
  omega

/-- **A date is told by its number.** -/
theorem ofDays_toDays {d : Date} (h : d.isValid = true) : ofDays d.toDays = d := by
  obtain ⟨y, m, counted, inMonth⟩ := exists_inMonth h
  rw [toDays_eq counted, ofDays_eq inMonth.inCycle]
  dsimp only
  rw [inMonth.month_of_last, year_eq]
  obtain ⟨year, month, day⟩ := d
  unfold Counted at counted
  dsimp only at counted ⊢
  rw [Date.mk.injEq]
  refine ⟨?_, ?_, by omega⟩
  · split <;> omega
  · split <;> omega

/-- **Every number is that of its date.** -/
theorem toDays_ofDays (n : Int) : toDays (ofDays n) = n := by
  have positive : (0 : Int) < daysPerCycle := by decide
  have whole : daysPerCycle * (n / daysPerCycle) + n % daysPerCycle = n := Int.mul_ediv_add_emod n _
  obtain ⟨a, b, r, last, h⟩ := exists_inCycle (Int.emod_nonneg n positive.ne')
    (Int.emod_lt_of_pos n positive)
  rw [← whole]
  generalize n / daysPerCycle = c
  generalize n % daysPerCycle = day at h ⊢
  rw [ofDays_eq h]
  dsimp only
  generalize month : (5 * last + 2) / 153 = m
  have counted : Counted
      { year := 400 * c + (100 * a + 4 * b + r) + if m < 10 then 0 else 1
        month := (if m < 10 then m + 3 else m - 9).toNat
        day := (last - monthStart m + 1).toNat } (400 * c + (100 * a + 4 * b + r)) m := by
    have inYear := h.day
    unfold Counted
    dsimp only
    split <;> omega
  have started : monthStart m ≤ last := by
    have inYear := h.day
    unfold monthStart
    omega
  have back : monthStart m + ((last - monthStart m + 1).toNat : Int) - 1 = last := by omega
  obtain ⟨cycle, century, four, year⟩ := h.year_parts c
  rw [toDays_eq counted]
  dsimp only
  rw [back, cycle, century, four, year, h.whole]

end Date
end LineScript
