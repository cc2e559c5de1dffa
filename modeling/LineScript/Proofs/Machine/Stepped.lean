import LineScript.Proofs.Machine.Instruction
/-!
# Steps

A step does one stage. `Stepped` names what the stages lead to and when, so
that what every step keeps is a case analysis on it.
-/

namespace LineScript

namespace Machine

variable {m m' : Machine}

/-- **What a step leads to.** -/
inductive Stepped (m : Machine) : Machine → Prop where
  /-- Behind the script, to the end of the run. -/
  | past : m.stage = .search → m.store.inputSlot ≤ m.line → Stepped m (m.enter .terminate)
  /-- On a line with an instruction, to its first stage. -/
  | found {i : Instruction} : m.stage = .search → m.line < m.store.inputSlot →
      m.instruction? = some i → Stepped m (m.settled.enter i.firstStage)
  /-- On any other line, past it. -/
  | passed : m.stage = .search → m.line < m.store.inputSlot → m.instruction? = none →
      Stepped m ({ m.settled with session := { m.session with flow := m.flowPast } }.enter
        (.advance none none))
  /-- To one more operand. -/
  | read {i : Instruction} {v : Sources} : m.stage = .enumerate i v → Stepped m (m.enumerate i v)
  /-- To what the command does. -/
  | performed {i : Instruction} {v : Sources} : m.stage = .execute i v →
      Stepped m ((m.perform i v).2.enter (i.stageAfter (m.perform i v).1))
  /-- To the next line. -/
  | advanced {write : Option (Nat × Text)} {jump : Option Nat} : m.stage = .advance write jump →
      Stepped m (m.advance write jump)
  /-- A machine that awaits a line stays as it is. -/
  | awaits {prompt : Text} {destination : Option Nat} : m.stage = .awaiting prompt destination →
      Stepped m m
  /-- One that sleeps reads the clock, and sleeps on. -/
  | slept {deadline : Nat} {clock : Clock} : m.stage = .sleeping deadline →
      m.board.clock.micros.1 < deadline → m.board.clock.micros.2 = clock →
      Stepped m { m with board := { m.board with clock } }.service
  /-- Or it goes on. -/
  | woken {deadline : Nat} {clock : Clock} : m.stage = .sleeping deadline →
      deadline ≤ m.board.clock.micros.1 → m.board.clock.micros.2 = clock →
      Stepped m ({ m with board := { m.board with clock } }.advance none none)
  /-- To the end of the run. -/
  | ended : m.stage = .terminate → Stepped m m.terminate

/-- A step leads to one of these. -/
theorem stepped (m : Machine) : Stepped m m.step := by
  cases stage : m.stage with
  | search =>
    rw [step_of_search stage, search_eq]
    split
    · next past => exact .past stage past
    · next inside =>
      cases found : m.instruction? with
      | some i => exact .found stage (Nat.lt_of_not_le inside) found
      | none => exact .passed stage (Nat.lt_of_not_le inside) found
  | execute i v =>
    rw [step_of_execute stage]
    exact .performed stage
  | sleeping deadline =>
    unfold step
    rw [stage]
    unfold Machine.wake
    dsimp only
    split
    · next early => exact .slept stage early rfl
    · next late => exact .woken stage (Nat.le_of_not_lt late) rfl
  | enumerate i v =>
    unfold step
    rw [stage]
    exact .read stage
  | advance write jump =>
    unfold step
    rw [stage]
    exact .advanced stage
  | awaiting prompt destination =>
    unfold step
    rw [stage]
    exact .awaits stage
  | terminate =>
    unfold step
    rw [stage]
    exact .ended stage

end Machine

end LineScript
