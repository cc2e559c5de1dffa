import LineScript.Board.Clock
import LineScript.Proofs.Board.Calendar
/-!
# Setting and reading the clock

The date and the time of a clock are set one after the other, and each setting
reads the clock: once for the half it keeps, and once more to start counting.
What is shown afterwards is settled here. The time of day is always the one
that was set (`Clock.shown_after_setting`). The date that was set first is
kept with the time of day of before, one step on, so it is a day late when
that step passes midnight (`Clock.shown_day_after_set`).

Moments are compared by the microseconds that a clock shows since day 0 began
(`Moment.count`). Inside a leap second these start over, and what is added
there may leave the day as from the second before (`Moment.day_add`).
-/

namespace LineScript

namespace Moment

variable {m m' : Moment}

/-! ## Moments as numbers -/

/-- The microseconds of a day. -/
def microsPerDay : Nat := secondsPerDay * microsPerSecond

/-- The microseconds a clock shows since the day began. In a leap second they
start over. -/
def ofDay (m : Moment) : Nat := m.second * microsPerSecond + m.micro % microsPerSecond

/-- The microseconds a clock shows since day 0 began. -/
def count (m : Moment) : Int := m.day * microsPerDay + m.ofDay

/-- The moment with a count, outside of leap seconds. -/
def ofCount (n : Int) : Moment :=
  ⟨n / microsPerDay, (n % microsPerDay / microsPerSecond).toNat, (n % microsPerSecond).toNat⟩

/-- A moment that there is: within its day, and within a second or the leap second after it. -/
structure Sound (m : Moment) : Prop where
  second : m.second < secondsPerDay
  micro : m.micro < 2 * microsPerSecond

theorem second_lt_of_isTime {hour minute second micro : Nat}
    (h : isTime hour minute second micro = true) :
    (hour * 60 + minute) * 60 + second < secondsPerDay := by
  simp only [isTime, Bool.and_eq_true, decide_eq_true_eq] at h
  unfold secondsPerDay
  omega

theorem sound_ofCount (n : Int) : (ofCount n).Sound := by
  constructor
  · unfold ofCount microsPerDay secondsPerDay microsPerSecond
    dsimp only
    omega
  · unfold ofCount microsPerSecond
    dsimp only
    omega

/-- Outside of leap seconds a moment is told by its count. -/
theorem ofCount_count (second : m.second < secondsPerDay) (whole : m.micro < microsPerSecond) :
    ofCount m.count = m := by
  obtain ⟨day, s, micro⟩ := m
  dsimp only at second whole
  unfold secondsPerDay at second
  unfold microsPerSecond at whole
  unfold ofCount count ofDay microsPerDay secondsPerDay microsPerSecond
  dsimp only
  rw [Moment.mk.injEq]
  omega

/-- **What is carried** goes to the moment with that count. -/
theorem carry_eq {day second micro : Int} (h : carry day second micro = some m) :
    m = ofCount (day * microsPerDay + second * microsPerSecond + micro) := by
  unfold carry at h
  dsimp only at h
  split at h
  · cases h
    unfold ofCount microsPerDay secondsPerDay microsPerSecond
    rw [Moment.mk.injEq]
    omega
  · cases h

/-- **Time goes on** by what is added, outside of leap seconds. -/
theorem add_eq (whole : m.micro < microsPerSecond) {n : Int} (h : m.add n = some m') :
    m' = ofCount (m.count + n) := by
  have parts := Int.mul_tdiv_add_tmod n microsPerSecond
  unfold add at h
  dsimp only at h
  rw [if_pos whole] at h
  rw [carry_eq h, count, ofDay, Nat.mod_eq_of_lt whole]
  congr 1
  unfold microsPerSecond at parts ⊢
  omega

theorem sound_carry {day second micro : Int} (h : carry day second micro = some m) : m.Sound :=
  carry_eq h ▸ sound_ofCount _

theorem sound_add (sound : m.Sound) {n : Int} (h : m.add n = some m') : m'.Sound := by
  unfold add at h
  dsimp only at h
  split at h
  · exact sound_carry h
  · next leap =>
    split at h
    · exact sound_carry h
    · next stays =>
      split at h
      · exact sound_carry h
      · cases h
        refine ⟨sound.second, ?_⟩
        have rest := Int.lt_tmod_of_pos n (show (0 : Int) < microsPerSecond by decide)
        dsimp only
        omega

/-- **The day** that time goes on to, also from a leap second. -/
theorem day_add (sound : m.Sound) {n : Nat} (h : m.add n = some m') :
    m'.day = m.day + ((m.ofDay + n) / microsPerDay : Nat) := by
  have shift : ∀ k : Nat, (m.day * microsPerDay + k) / microsPerDay =
      m.day + (k / microsPerDay : Nat) := by
    intro k
    unfold microsPerDay secondsPerDay microsPerSecond
    omega
  rcases Nat.lt_or_ge m.micro microsPerSecond with whole | leap
  · rw [add_eq whole h, ofCount, count, Int.add_assoc]
    exact shift (m.ofDay + n)
  · have leaping : ¬ m.micro < microsPerSecond := Nat.not_lt.2 leap
    have micro := sound.micro
    have parts := Nat.div_add_mod n microsPerSecond
    have left : m.micro % microsPerSecond = m.micro - microsPerSecond := by
      rw [Nat.mod_eq_sub_mod leap, Nat.mod_eq_of_lt (by omega)]
    have seconds : (n : Int).tdiv microsPerSecond = (n / microsPerSecond : Nat) := rfl
    have rest : (n : Int).tmod microsPerSecond = (n % microsPerSecond : Nat) := rfl
    unfold add at h
    dsimp only at h
    rw [if_neg leaping, seconds, rest] at h
    split at h
    · have count : m.day * microsPerDay +
          (m.second + (n / microsPerSecond : Nat)) * microsPerSecond +
            (m.micro - microsPerSecond + (n % microsPerSecond : Nat)) =
          m.day * microsPerDay + (m.ofDay + n : Nat) := by
        rw [ofDay, left]
        unfold microsPerSecond at *
        omega
      rw [carry_eq h, ofCount, count]
      exact shift (m.ofDay + n)
    · next stays =>
      -- still in the leap second, which is the last second of its day at most
      have forward : ¬ ((n / microsPerSecond : Nat) : Int) < 0 :=
        Int.not_lt.2 (Int.natCast_nonneg _)
      rw [if_neg forward] at h
      cases h
      have within : m.ofDay + n < microsPerDay := by
        have second := sound.second
        rw [ofDay, left]
        unfold microsPerDay secondsPerDay microsPerSecond at *
        omega
      rw [Nat.div_eq_of_lt within]
      exact (Int.add_zero m.day).symm

end Moment

namespace Timestamp

variable {d : Date} {hour minute second micro : Nat}

/-- What a clock shows at a count of microseconds since day 0 began. -/
def ofCount (n : Int) : Timestamp := Clock.Timestamp.of (Moment.ofCount n)

/-- The microseconds since midnight that a timestamp shows. -/
def sinceMidnight (t : Timestamp) : Nat :=
  ((t.hour * 60 + t.minute) * 60 + t.second) * Moment.microsPerSecond + t.micro

theorem sinceMidnight_of (m : Moment) : (Clock.Timestamp.of m).sinceMidnight = m.ofDay := by
  unfold Clock.Timestamp.of sinceMidnight Moment.ofDay Moment.microsPerSecond
  dsimp only
  omega

/-- **The date that is shown** has the number of the day. -/
theorem toDays_ofCount (n : Int) : (ofCount n).date.toDays = n / Moment.microsPerDay :=
  Date.toDays_ofDays _

/-- **A date and a time are shown** at their count. -/
theorem ofCount_count (date : d.isValid = true)
    (time : Moment.isTime hour minute second micro = true)
    (whole : micro < Moment.microsPerSecond) :
    ofCount (Moment.count ⟨d.toDays, (hour * 60 + minute) * 60 + second, micro⟩) =
      ⟨d, Date.weekday d.toDays, hour, minute, second, micro⟩ := by
  rw [ofCount, Moment.ofCount_count (Moment.second_lt_of_isTime time) whole]
  simp only [Moment.isTime, Bool.and_eq_true, decide_eq_true_eq] at time
  unfold Clock.Timestamp.of
  dsimp only
  rw [Date.ofDays_toDays date, Nat.mod_eq_of_lt whole, Timestamp.mk.injEq]
  exact ⟨rfl, rfl, by omega, by omega, by omega, rfl⟩

end Timestamp

namespace Clock

variable {c : Clock} {step : Nat}

/-! ## What a clock goes through -/

/-- What can be done to a clock. -/
inductive Use where
  | now
  | micros
  | setDate (d : Date)
  | setTime (hour minute second micro : Nat)

/-- The clock after it was read or set. -/
def use (c : Clock) : Use → Clock
  | .now => c.now.2
  | .micros => c.micros.2
  | .setDate d => c.setDate d
  | .setTime hour minute second micro => c.setTime hour minute second micro

/-- The clock is one with this step that was read and set in some order. -/
def Reached (step : Nat) (c : Clock) : Prop :=
  ∃ uses : List Use, uses.foldl use (stepped step) = c

/-- What holds of every clock with this step: it counts from a moment there is. -/
structure Sound (step : Nat) (c : Clock) : Prop where
  step : c.passing = fun _ => step
  base : c.base.Sound

theorem sound_new (step : Nat) : Sound step (stepped step) where
  step := rfl
  base := ⟨show 0 < Moment.secondsPerDay by decide,
    show 0 < 2 * Moment.microsPerSecond by decide⟩

theorem Sound.shown (h : c.Sound step) (elapsed : Nat) : (c.shown elapsed).Sound := by
  unfold Clock.shown
  cases sum : c.base.add (Int.bmod (elapsed - c.origin : Nat) (2 ^ 64)) with
  | none => exact h.base
  | some m => exact Moment.sound_add h.base sum

theorem Sound.setDate (h : c.Sound step) (d : Date) : (c.setDate d).Sound step := by
  have now := h.shown c.next
  unfold Clock.setDate current micros rebase micros
  dsimp only
  split
  · exact ⟨h.step, now.second, now.micro⟩
  · exact ⟨h.step, h.base⟩

theorem Sound.setTime (h : c.Sound step) (hour minute second micro : Nat) :
    (c.setTime hour minute second micro).Sound step := by
  unfold Clock.setTime current micros rebase micros
  dsimp only
  split
  · next time =>
    simp only [Moment.isTime, Bool.and_eq_true, decide_eq_true_eq] at time
    refine ⟨h.step, ?_, time.1.2⟩
    unfold Moment.secondsPerDay
    dsimp only
    omega
  · exact ⟨h.step, h.base⟩

/-- **Every clock is sound**, whatever was done to it. -/
theorem Reached.sound (h : Reached step c) : c.Sound step := by
  obtain ⟨uses, rfl⟩ := h
  have kept : ∀ (uses : List Use) (c : Clock), c.Sound step → (uses.foldl use c).Sound step := by
    intro uses
    induction uses with
    | nil => exact fun c h => h
    | cons u uses ih =>
      intro c h
      refine ih (c.use u) ?_
      cases u with
      | now | micros => exact ⟨h.step, h.base⟩
      | setDate d => exact h.setDate d
      | setTime hour minute second micro => exact h.setTime hour minute second micro
  exact kept uses _ (sound_new step)

/-! ## Readings in range -/

/-- No sum of the next reading is out of range. -/
structure InRange (c : Clock) : Prop where
  counted : c.next < 2 ^ 64
  span : c.next - c.origin < 2 ^ 63
  calendar : (c.base.add (c.next - c.origin : Nat)).isSome

/-- A reading shows what the clock has counted to. -/
theorem now_eq (c : Clock) : c.now.1 = Timestamp.of (c.shown c.next) := rfl

/-- A reading in range shows the base and what was counted since. -/
theorem InRange.exists_shown (h : c.InRange) :
    ∃ m, c.base.add (c.next - c.origin : Nat) = some m ∧ c.shown c.next = m := by
  obtain ⟨m, sum⟩ := Option.isSome_iff_exists.1 h.calendar
  have span := h.span
  have signed : Int.bmod (c.next - c.origin : Nat) (2 ^ 64) = (c.next - c.origin : Nat) :=
    Int.bmod_eq_of_le (by omega) (by omega)
  refine ⟨m, sum, ?_⟩
  rw [shown, signed, sum]
  rfl

/-- A clock that starts to count shows its base, one step later. -/
theorem InRange.add_step (h : c.InRange) (sound : c.Sound step) (started : c.origin = c.elapsed) :
    c.base.add step = some (c.shown c.next) := by
  obtain ⟨m, sum, shown⟩ := h.exists_shown
  have passed : c.next - c.origin = step := by
    rw [next, sound.step, started, Nat.add_sub_cancel_left]
  rwa [passed, ← shown] at sum

/-! ## Setting -/

/-- A date that is set is that of the moment now, which is counted from. -/
theorem setDate_eq (c : Clock) {d : Date} (h : d.isValid = true) :
    c.setDate d =
      { c with
        base := { c.shown c.next with day := d.toDays }
        origin := c.micros.2.next
        elapsed := c.micros.2.next
        readings := c.readings + 2 } := by
  unfold setDate current micros rebase micros
  dsimp only
  rw [if_pos h]
  rfl

/-- So is a time that is set. -/
theorem setTime_eq (c : Clock) {hour minute second micro : Nat}
    (h : Moment.isTime hour minute second micro = true) :
    c.setTime hour minute second micro =
      { c with
        base := ⟨(c.shown c.next).day, (hour * 60 + minute) * 60 + second, micro⟩
        origin := c.micros.2.next
        elapsed := c.micros.2.next
        readings := c.readings + 2 } := by
  unfold setTime current micros rebase micros
  dsimp only
  rw [if_pos h]
  rfl

/-- **The day after a date was set**, at the next reading: the time of day went
on, and may have passed midnight. -/
theorem day_after_setDate (sound : c.Sound step) {d : Date} (date : d.isValid = true)
    (range : (c.setDate d).InRange) :
    ((c.setDate d).shown (c.setDate d).next).day =
      d.toDays + ((c.now.1.sinceMidnight + step) / Moment.microsPerDay : Nat) := by
  obtain ⟨second, micro⟩ := sound.shown c.next
  have base : (c.setDate d).base =
      ⟨d.toDays, (c.shown c.next).second, (c.shown c.next).micro⟩ := by
    rw [setDate_eq c date]
  have started : (c.setDate d).origin = (c.setDate d).elapsed := by
    rw [setDate_eq c date]
  have later := range.add_step (sound.setDate d) started
  rw [base] at later
  have dated : Moment.Sound ⟨d.toDays, (c.shown c.next).second, (c.shown c.next).micro⟩ :=
    ⟨second, micro⟩
  rw [Moment.day_add dated later]
  -- the reading of `setDate` is the one a `now` in its place would be
  rw [now_eq, Timestamp.sinceMidnight_of]
  rfl

/-- **What a clock shows once it is set.** The time of day is the one that was
set, one step later. The date is not, if the day ended between the two
readings that the setting takes: the time of day is still the old one then. -/
theorem shown_after_setting {d : Date} {hour minute second micro : Nat} (reached : Reached step c)
    (date : d.isValid = true) (time : Moment.isTime hour minute second micro = true)
    (whole : micro < Moment.microsPerSecond) (range : (c.setDate d).InRange)
    (range' : ((c.setDate d).setTime hour minute second micro).InRange) :
    let asked := Moment.count ⟨d.toDays, (hour * 60 + minute) * 60 + second, micro⟩
    let passed := (c.now.1.sinceMidnight + step) / Moment.microsPerDay
    let shown := ((c.setDate d).setTime hour minute second micro).now.1
    Timestamp.ofCount asked = ⟨d, Date.weekday d.toDays, hour, minute, second, micro⟩ ∧
      shown = Timestamp.ofCount (asked + passed * Moment.microsPerDay + step) ∧
      (shown = Timestamp.ofCount (asked + step) ↔ passed = 0) := by
  intro asked passed shown
  have sound := reached.sound
  have day := day_after_setDate sound date range
  have exact : shown = Timestamp.ofCount (asked + passed * Moment.microsPerDay + step) := by
    have sound' := sound.setDate d
    have started : ((c.setDate d).setTime hour minute second micro).origin =
        ((c.setDate d).setTime hour minute second micro).elapsed := by
      rw [setTime_eq _ time]
    have base : ((c.setDate d).setTime hour minute second micro).base =
        ⟨d.toDays + passed, (hour * 60 + minute) * 60 + second, micro⟩ := by
      rw [setTime_eq _ time, day]
    have later := range'.add_step (sound'.setTime hour minute second micro) started
    rw [base] at later
    have count : Moment.count ⟨d.toDays + passed, (hour * 60 + minute) * 60 + second, micro⟩ =
        asked + passed * Moment.microsPerDay := by
      rw [Moment.count, Int.add_mul, Int.add_right_comm]
      rfl
    have now := now_eq ((c.setDate d).setTime hour minute second micro)
    rw [Moment.add_eq whole later, count] at now
    exact now
  refine ⟨Timestamp.ofCount_count date time whole, exact, ?_⟩
  constructor
  · intro same
    have days := congrArg (fun t : Timestamp => t.date.toDays) (exact.symm.trans same)
    rw [Timestamp.toDays_ofCount, Timestamp.toDays_ofCount] at days
    unfold Moment.microsPerDay Moment.secondsPerDay Moment.microsPerSecond at days
    omega
  · intro none
    rw [exact, none]
    simp

/-- A date and a time set on a new clock are shown one step later. -/
theorem shown_after_setting_new :
    let set := ((stepped 1).setDate ⟨2024, 2, 29⟩).setTime 23 59 59 999999
    set.now.1 = Timestamp.ofCount (Moment.count ⟨Date.toDays ⟨2024, 2, 29⟩, 86399, 999999⟩ + 1) ∧
      set.now.1 = ⟨⟨2024, 3, 1⟩, 5, 0, 0, 0, 0⟩ := by
  have reached : Reached 1 (stepped 1) := ⟨[], rfl⟩
  obtain ⟨-, -, exact⟩ := shown_after_setting reached (d := ⟨2024, 2, 29⟩) (by decide)
    (show Moment.isTime 23 59 59 999999 = true by decide) (by decide)
    ⟨by decide, by decide, by decide⟩ ⟨by decide, by decide, by decide⟩
  exact ⟨exact.2 (by decide), by decide⟩

/-- **The day after the one that was set is shown** if midnight passes between
the two readings, here from 23:59:59 on with steps of one second. -/
theorem shown_day_after_set :
    ∃ c : Clock, Reached 1000000 c ∧ c.now.1 = ⟨⟨2000, 1, 1⟩, 6, 23, 59, 59, 0⟩ ∧
      Date.isValid ⟨2021, 6, 15⟩ = true ∧ Moment.isTime 12 0 0 0 = true ∧ c.InRange ∧
      (c.setDate ⟨2021, 6, 15⟩).InRange ∧
      ((c.setDate ⟨2021, 6, 15⟩).setTime 12 0 0 0).InRange ∧
      ((c.setDate ⟨2021, 6, 15⟩).setTime 12 0 0 0).now.1 = ⟨⟨2021, 6, 16⟩, 3, 12, 0, 1, 0⟩ ∧
      ((c.setDate ⟨2021, 6, 15⟩).setTime 12 0 0 0).now.1 ≠
        Timestamp.ofCount (Moment.count ⟨Date.toDays ⟨2021, 6, 15⟩, 43200, 0⟩ + 1000000) := by
  refine ⟨(stepped 1000000).setTime 23 59 58 0, ⟨[.setTime 23 59 58 0], rfl⟩, ?_⟩
  exact ⟨by decide, by decide, by decide, ⟨by decide, by decide, by decide⟩,
    ⟨by decide, by decide, by decide⟩, ⟨by decide, by decide, by decide⟩, by decide, by decide⟩

end Clock

end LineScript
