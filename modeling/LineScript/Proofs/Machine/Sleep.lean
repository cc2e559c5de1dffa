import LineScript.Proofs.Machine.Return
import Mathlib.Algebra.Order.Floor.Div
/-!
# Sleeping

A machine that sleeps reads the clock once in each cycle, until a reading has
reached the deadline. On a stepped clock each reading is one step further, so
the number of cycles that find it asleep takes one division
(`sleeps_until_deadline`). Meanwhile nothing else changes but the
sequencers, which get one tick in each of these cycles, and what the host does
to the lines and the timer (`Dozes.calls`).
-/

namespace LineScript

/-! ## What a host does meanwhile -/

namespace HostCall

/-- Whether a call is a break. -/
def Breaks : HostCall → Prop
  | interrupt => True
  | receive t => Machine.breakChar ∈ t
  | _ => False

instance : (k : HostCall) → Decidable k.Breaks
  | interrupt => .isTrue trivial
  | receive t => inferInstanceAs (Decidable (Machine.breakChar ∈ t))
  | execute _ | service | change _ => .isFalse id

/-- The cycles a call makes at most. -/
def cycles : HostCall → Nat
  | execute cycles => cycles
  | _ => 0

/-- The ticks of the timer a call makes. -/
def ticks : HostCall → Nat
  | service => 1
  | _ => 0

/-- The changes of the lines a call makes. -/
def changes : HostCall → List Store.Change
  | change c => [c]
  | _ => []

variable (ks : List HostCall)

/-- The cycles that several calls make at most, -/
def cyclesIn : Nat := (ks.map cycles).sum

/-- the ticks they make, -/
def ticksIn : Nat := (ks.map ticks).sum

/-- and their changes of the lines. -/
def changesIn : List Store.Change := ks.flatMap changes

end HostCall

/-! ## Time passes -/

namespace Clock

/-- The clock after so many readings. -/
def later (c : Clock) (readings : Nat) : Clock := (fun c => c.micros.2)^[readings] c

theorem later_zero (c : Clock) : c.later 0 = c := rfl

theorem later_later (c : Clock) (n n' : Nat) : (c.later n).later n' = c.later (n + n') := by
  rw [later, later, later, ← Function.iterate_add_apply, Nat.add_comm]

/-- It counts on. -/
theorem elapsed_le_later (c : Clock) (n : Nat) : c.elapsed ≤ (c.later n).elapsed := by
  induction n with
  | zero => exact Nat.le_refl _
  | succ n ih =>
    rw [← later_later]
    exact ih.trans (Nat.le_add_right _ _)

/-- A clock that advances by the same step at every reading. -/
def Steady (step : Nat) (c : Clock) : Prop := c.passing = fun _ => step

variable {c : Clock} {step : Nat}

theorem Steady.later (h : c.Steady step) (n : Nat) : (c.later n).Steady step := by
  induction n with
  | zero => exact h
  | succ n ih =>
    rw [← later_later]
    exact ih

/-- What it counts to. -/
theorem Steady.elapsed_later (h : c.Steady step) (n : Nat) :
    (c.later n).elapsed = c.elapsed + n * step := by
  induction n with
  | zero => rw [Nat.zero_mul]; rfl
  | succ n ih =>
    have passed : (c.later n).passing (c.later n).readings = step := by rw [h.later n]
    have counted : ((c.later n).later 1).elapsed = (c.later n).elapsed + step :=
      congrArg ((c.later n).elapsed + ·) passed
    rw [← later_later, counted, ih, Nat.add_assoc, Nat.succ_mul]

end Clock

namespace Board

/-- The board after so many readings of the clock and ticks of the timer. -/
def later (b : Board) (readings ticks : Nat) : Board :=
  { service^[ticks] b with clock := b.clock.later readings }

/-- Ticks do not reach the clock. -/
theorem iterate_service_withClock (b : Board) (clock : Clock) (ticks : Nat) :
    service^[ticks] { b with clock } = { service^[ticks] b with clock } := by
  induction ticks with
  | zero => rfl
  | succ ticks ih =>
    rw [Function.iterate_succ_apply', Function.iterate_succ_apply', ih]
    rfl

theorem later_zero (b : Board) : b.later 0 0 = b := by
  rw [later, Clock.later_zero]
  rfl

theorem later_later (b : Board) (n n' ticks ticks' : Nat) :
    (b.later n ticks).later n' ticks' = b.later (n + n') (ticks + ticks') := by
  have clock : (b.later n ticks).clock = b.clock.later n := rfl
  rw [later, clock, Clock.later_later, later, iterate_service_withClock,
    ← Function.iterate_add_apply, Nat.add_comm ticks']
  rfl

end Board

namespace Machine

variable {m : Machine} {i : Instruction} {v : Sources} {deadline : Nat}

/-! ## Asleep -/

/-- A machine sleeps, and has nothing else to attend to. -/
structure Dozes (m : Machine) (deadline : Nat) : Prop where
  stage : m.stage = .sleeping deadline
  running : m.running = true
  output : m.output = []
  listing : m.listing = none
  quiet : m.interrupted = false

/-- The machine after so many readings of the clock, ticks of the timer and
changes of the lines, with nothing else changed. -/
def dozing (m : Machine) (polls ticks : Nat) (changes : List Store.Change) : Machine :=
  { m with store := m.store.applyAll changes, board := m.board.later polls ticks }

theorem dozing_zero (m : Machine) : m.dozing 0 0 [] = m := by
  rw [dozing, Board.later_zero]
  rfl

theorem dozing_dozing (m : Machine) (polls polls' ticks ticks' : Nat)
    (changes changes' : List Store.Change) :
    (m.dozing polls ticks changes).dozing polls' ticks' changes' =
      m.dozing (polls + polls') (ticks + ticks') (changes ++ changes') := by
  have lines : (m.store.applyAll changes).applyAll changes' =
      m.store.applyAll (changes ++ changes') := List.foldl_append.symm
  simp only [dozing, Board.later_later, lines]

namespace Dozes

theorem dozing (h : m.Dozes deadline) (polls ticks : Nat) (changes : List Store.Change) :
    (m.dozing polls ticks changes).Dozes deadline :=
  ⟨h.stage, h.running, h.output, h.listing, h.quiet⟩

/-- A cycle looks at the clock. -/
theorem cycle_eq (h : m.Dozes deadline) : m.cycle = (none, m.wake deadline) := by
  have stepped : m.step = m.wake deadline := by
    unfold step
    rw [h.stage]
  simp only [cycle, h.output, h.listing, obey_of_quiet h.quiet, h.running, h.stage,
    List.isEmpty_nil, Bool.not_true, Bool.false_eq_true, if_false, stepped]

/-- **Before the deadline** it sleeps on, and the board gets a tick. -/
theorem cycle_early (h : m.Dozes deadline)
    (early : (m.board.clock.later 1).elapsed < deadline) :
    m.cycle = (none, m.dozing 1 1 []) := by
  rw [h.cycle_eq, wake]
  exact congrArg (Prod.mk none) (if_pos early)

/-- **From the deadline on** it goes on to the next line. -/
theorem cycle_late (h : m.Dozes deadline)
    (late : deadline ≤ (m.board.clock.later 1).elapsed) :
    ∃ woken, m.cycle = (none, woken) ∧ woken.line = m.line + 1 ∧
      woken.stage = (if m.store.inputSlot ≤ m.line + 1 then .terminate else .search) ∧
      woken.board = m.board.later 1 0 := by
  refine ⟨(m.dozing 1 0 []).advance none none, ?_, rfl, rfl, rfl⟩
  rw [h.cycle_eq, wake]
  exact congrArg (Prod.mk none) (if_neg (Nat.not_lt.2 late))

/-- So a call of several cycles finds it asleep until the last. -/
theorem execute (h : m.Dozes deadline) {n : Nat}
    (early : n = 0 ∨ (m.board.clock.later n).elapsed < deadline) :
    m.execute n = (.running, m.dozing n n []) := by
  induction n generalizing m with
  | zero => rw [dozing_zero]; rfl
  | succ n ih =>
    have within := early.resolve_left (Nat.succ_ne_zero n)
    rw [Nat.add_comm, ← Clock.later_later] at within
    have first := h.cycle_early (Nat.lt_of_le_of_lt (Clock.elapsed_le_later _ n) within)
    have rest : n = 0 ∨ ((m.dozing 1 1 []).board.clock.later n).elapsed < deadline := .inr within
    rw [execute_succ_of_silent n first, ih (h.dozing 1 1 []) rest, dozing_dozing, Nat.add_comm 1]
    rfl

/-- **Whatever a host does but a break** does not wake it. -/
theorem call (h : m.Dozes deadline) {k : HostCall} (whole : ¬ k.Breaks)
    (early : k.cycles = 0 ∨ (m.board.clock.later k.cycles).elapsed < deadline) :
    (m.call k).2 = m.dozing k.cycles (k.cycles + k.ticks) k.changes := by
  cases k with
  | execute n => exact congrArg Prod.snd (h.execute early)
  | interrupt => exact absurd trivial whole
  | receive t =>
    have busy : ∀ prompt destination, m.stage ≠ .awaiting prompt destination := by
      simp [h.stage]
    have ignored : m.call (.receive t) = (.received false, m) := by
      rw [Machine.call, receive_of_busy whole h.running busy]
    rw [ignored]
    exact m.dozing_zero.symm
  | service =>
    change m.service = m.dozing 0 1 []
    rw [Machine.dozing, Board.later, Clock.later_zero]
    rfl
  | change c =>
    change { m with store := (m.store.apply c).2 } = m.dozing 0 0 [c]
    rw [Machine.dozing, Board.later_zero]
    rfl

/-- So does nothing in a whole sequence of calls. -/
theorem calls (h : m.Dozes deadline) {ks : List HostCall} (whole : ∀ k ∈ ks, ¬ k.Breaks)
    (early : HostCall.cyclesIn ks = 0 ∨
      (m.board.clock.later (HostCall.cyclesIn ks)).elapsed < deadline) :
    m.calls ks = m.dozing (HostCall.cyclesIn ks) (HostCall.cyclesIn ks + HostCall.ticksIn ks)
      (HostCall.changesIn ks) := by
  induction ks generalizing m with
  | nil => exact m.dozing_zero.symm
  | cons k ks ih =>
    obtain ⟨first, others⟩ := List.forall_mem_cons.1 whole
    have cycles : HostCall.cyclesIn (k :: ks) = k.cycles + HostCall.cyclesIn ks := List.sum_cons
    have ticks : HostCall.ticksIn (k :: ks) = k.ticks + HostCall.ticksIn ks := List.sum_cons
    have changes : HostCall.changesIn (k :: ks) = k.changes ++ HostCall.changesIn ks :=
      List.flatMap_cons
    rw [cycles, ← Clock.later_later] at early
    have early' : k.cycles = 0 ∨ (m.board.clock.later k.cycles).elapsed < deadline := by
      refine early.imp (fun none => by omega) fun within => ?_
      exact Nat.lt_of_le_of_lt (Clock.elapsed_le_later _ _) within
    have called := h.call first early'
    have rest := ih (h.dozing k.cycles (k.cycles + k.ticks) k.changes) others
      (early.imp_left fun none => by omega)
    rw [calls_cons, called, rest, dozing_dozing, cycles, ticks, changes]
    congr 1
    omega

/-- After them the next cycle wakes it, if that is when the deadline is reached. -/
theorem wakes (h : m.Dozes deadline) {ks : List HostCall} (whole : ∀ k ∈ ks, ¬ k.Breaks)
    (early : HostCall.cyclesIn ks = 0 ∨
      (m.board.clock.later (HostCall.cyclesIn ks)).elapsed < deadline)
    (late : deadline ≤ (m.board.clock.later (HostCall.cyclesIn ks + 1)).elapsed) :
    ∃ woken, (m.calls ks).cycle = (none, woken) ∧ woken.line = m.line + 1 ∧
      woken.stage = (if m.store.inputSlot ≤ m.line + 1 then .terminate else .search) ∧
      woken.board = m.board.later (HostCall.cyclesIn ks + 1)
        (HostCall.cyclesIn ks + HostCall.ticksIn ks) := by
  have slept := h.calls whole early
  have dozes : (m.calls ks).Dozes deadline := slept ▸ h.dozing _ _ _
  have lines : m.store.Evolves (m.calls ks).store := ⟨HostCall.changesIn ks, by rw [slept]; rfl⟩
  have line : (m.calls ks).line = m.line := by rw [slept]; rfl
  have reached : deadline ≤ ((m.calls ks).board.clock.later 1).elapsed := by
    rw [slept]
    rwa [← Clock.later_later] at late
  obtain ⟨woken, cycled, next, stage, board⟩ := dozes.cycle_late reached
  rw [line] at next stage
  rw [lines.inputSlot] at stage
  refine ⟨woken, cycled, next, stage, ?_⟩
  rw [board, slept]
  exact Board.later_later _ _ _ _ _

end Dozes

/-! ## From falling asleep to waking up -/

/-- **To carry out a sleep** is to read the clock and to fall asleep. -/
theorem Executes.dozes (h : m.Executes i v) (sleep : i.command = .sleep) :
    m.cycle.2 = (m.dozing 1 0 []).enter
        (.sleeping (m.cycle.2.board.clock.elapsed + 1000 * v.number 0)) ∧
      m.cycle.2.Dozes (m.cycle.2.board.clock.elapsed + 1000 * v.number 0) := by
  have running : m.running = true := by
    have cycled := m.cycled
    rw [h.2] at cycled
    generalize m.step = next at cycled
    cases cycled with
    | broken _ _ running | step _ _ running => exact running
  have asleep : m.cycle.2 = (m.dozing 1 0 []).enter
      (.sleeping ((m.board.clock.later 1).elapsed + 1000 * v.number 0)) := by
    rw [h.2, step_of_execute h.1, Nat.mul_comm 1000]
    unfold perform
    rw [sleep]
    rfl
  have clock : m.cycle.2.board.clock.elapsed = (m.board.clock.later 1).elapsed := by
    rw [asleep]
    rfl
  obtain ⟨output, listing, quiet⟩ := h.quiet running
  rw [clock]
  refine ⟨asleep, ?_⟩
  rw [asleep]
  exact ⟨rfl, running, output, listing, quiet⟩

/-- The readings that come before a duration is over, rounded up. -/
theorem lt_polls_iff {duration step n : Nat} (moves : 0 < step) :
    n < max 1 (duration ⌈/⌉ step) ↔ n = 0 ∨ n * step < duration := by
  rw [lt_max_iff, Nat.lt_one_iff, ← not_le, ceilDiv_le_iff_le_smul moves, not_le, smul_eq_mul,
    Nat.mul_comm]

/-- On a stepped clock, a machine that carries out a sleep stays asleep for as many cycles as it
takes steps of the clock to reach the deadline, but for one, whatever else its
host does but a break. Each of these cycles reads the clock and gives the
board one tick, and changes nothing else. The cycle after them finds the
deadline reached, and goes on to the next line without a tick. -/
theorem sleeps_until_deadline {step : Nat} (executes : m.Executes i v)
    (sleep : i.command = .sleep) (steady : m.board.clock.Steady step) (moves : 0 < step) :
    let duration := 1000 * v.number 0
    let polls := max 1 (duration ⌈/⌉ step)
    let asleep := m.cycle.2
    let deadline := asleep.board.clock.elapsed + duration
    asleep = (m.dozing 1 0 []).enter (.sleeping deadline) ∧
    ∀ ks : List HostCall, (∀ k ∈ ks, ¬ k.Breaks) →
      let cycles := HostCall.cyclesIn ks
      let ticks := cycles + HostCall.ticksIn ks
      let later := asleep.calls ks
      (cycles < polls → later.stage = .sleeping deadline ∧
        later = asleep.dozing cycles ticks (HostCall.changesIn ks)) ∧
      (cycles + 1 = polls → ∃ woken, later.cycle = (none, woken) ∧
        woken.line = m.line + 1 ∧
        woken.stage = (if m.store.inputSlot ≤ m.line + 1 then .terminate else .search) ∧
        woken.board = asleep.board.later polls ticks ∧
        deadline ≤ woken.board.clock.elapsed) := by
  intro duration polls asleep deadline
  obtain ⟨fell, dozes⟩ : asleep = _ ∧ asleep.Dozes deadline := executes.dozes sleep
  have counts (n : Nat) : (asleep.board.clock.later n).elapsed =
      asleep.board.clock.elapsed + n * step := by
    refine Clock.Steady.elapsed_later ?_ n
    rw [fell]
    exact steady.later 1
  refine ⟨fell, fun ks whole => ?_⟩
  intro cycles ticks later
  have early (less : cycles < polls) : cycles = 0 ∨
      (asleep.board.clock.later cycles).elapsed < deadline := by
    refine ((lt_polls_iff moves).1 less).imp_right fun before => ?_
    rw [counts]
    exact Nat.add_lt_add_left before _
  refine ⟨fun less => ?_, fun last => ?_⟩
  · have slept : later = _ := dozes.calls whole (early less)
    rw [slept]
    exact ⟨dozes.stage, rfl⟩
  · have less : cycles < polls := by omega
    have reached : duration ≤ polls * step := by
      by_contra early
      exact Nat.lt_irrefl polls ((lt_polls_iff moves).2 (.inr (Nat.lt_of_not_le early)))
    have late : deadline ≤ (asleep.board.clock.later polls).elapsed := by
      rw [counts]
      exact Nat.add_le_add_left reached _
    obtain ⟨woken, cycled, next, stage, board⟩ := dozes.wakes whole (early less) (last ▸ late)
    rw [show HostCall.cyclesIn ks + 1 = polls from last] at board
    have line : asleep.line = m.line := by rw [fell]; rfl
    have lines : asleep.store = m.store := by rw [fell]; rfl
    rw [line] at next stage
    rw [lines] at stage
    exact ⟨woken, cycled, next, stage, board, board ▸ late⟩

/-- A sleep of a millisecond on a clock with steps of 300 microseconds takes
three cycles, under a host that ticks and enters a line meanwhile, and wakes up
in the fourth. -/
theorem sleeps_until_deadline_short :
    ∃ m i v, Reachable { lines := 6, row := 16 } m ∧ m.Executes i v ∧ i.command = .sleep ∧
      v.number 0 = 1 ∧ m.board.clock.Steady 300 ∧ m.line = 1 ∧
      let asleep := m.cycle.2
      let later := asleep.calls [.execute 2, .service, .receive "x".toList, .execute 1]
      later.stage = .sleeping (asleep.board.clock.elapsed + 1000) ∧
      ∃ woken, later.cycle = (none, woken) ∧ woken.line = 2 ∧
        woken.board = asleep.board.later 4 4 := by
  have reached := (@Reachable.new { lines := 6, row := 16 } { clock := .stepped 300 } default _ rfl).calls
    [.write 1 "sleep 1".toList, .receive "run".toList, .execute 2]
  generalize stands : Machine.calls _ _ = m at reached
  obtain ⟨i, v, executes, found⟩ : ∃ i v, m.Executes i v ∧ m.stage.instruction? = some i := by
    rw [← stands]
    exact Executes.exists_of_phase (by decide +kernel) (by decide +kernel) rfl (by decide +kernel)
      (by decide +kernel)
  have command : m.stage.instruction?.map Instruction.command = some .sleep := by
    rw [← stands]
    decide +kernel
  have time : m.stage.sources.number 0 = 1 ∧ m.line = 1 := by
    rw [← stands]
    decide +kernel
  have steady : m.board.clock.Steady 300 := by
    rw [← stands]
    rfl
  have sleep : i.command = .sleep := by
    rw [found] at command
    exact Option.some.inj command
  obtain ⟨number, line⟩ := time
  rw [show m.stage.sources = v by rw [executes.1]; rfl] at number
  have awake := (sleeps_until_deadline executes sleep steady (by decide)).2
  rw [number, line] at awake
  obtain ⟨still, wakes⟩ :=
    awake [.execute 2, .service, .receive "x".toList, .execute 1] (by decide)
  obtain ⟨woken, cycled, next, -, board, -⟩ := wakes rfl
  exact ⟨m, i, v, reached, executes, sleep, number, steady, line, (still (by decide)).1, woken,
    cycled, next, board⟩

end Machine

end LineScript
