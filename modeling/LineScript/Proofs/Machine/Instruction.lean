import LineScript.Proofs.Machine.Sound
import Mathlib.Logic.Function.Iterate
/-!
# Instructions at once

What an instruction does when it is done at once: the current line is decoded
behind its label, all its operands are evaluated in the lines as they then
stand, the command is carried out, its result is written, and the machine
goes on. The stages do the same one piece at a time, and
`iterate_step_of_instruction` counts them: one to search, one for each operand
that is read, one to carry out, one to go on or to end. Nothing an instruction
reads is changed by its own earlier stages, since a stage that reads an
operand writes nothing.
-/

namespace LineScript

/-! ## What a line says -/

namespace Store

/-- The first word of a line behind its label and what follows that word, as
they stand once the label is terminated. -/
def wordsOf (s : Store) (line : Nat) : Text × Text :=
  ((s.terminateLabel line).textFrom line (s.leading line).offset).keyword

/-- The command a line carries, if it carries one. -/
def command? (s : Store) (line : Nat) : Option Command := Command.ofKeyword? (s.wordsOf line).1

end Store

namespace Instruction

/-- The values of all operands in some lines. -/
def values (i : Instruction) (s : Store) : Sources :=
  i.operands.map (Operand.value i.command.signature.domain s)

/-- How many operands are read before the command is carried out. -/
def reads (i : Instruction) : Nat :=
  if i.command.signature.domain = .none then 0 else i.operands.length

theorem reads_eq_length {i : Instruction} (h : 0 < i.reads) : i.reads = i.operands.length := by
  unfold reads at h ⊢
  split at h
  · omega
  · rw [if_neg ‹_›]

/-- The stage that follows an effect. -/
def stageAfter (i : Instruction) : Effect → Stage
  | .proceed write jump => .advance (write.bind fun t => i.destination.map (·, t)) jump
  | .ask prompt => .awaiting prompt i.destination
  | .pause deadline => .sleeping deadline
  | .halt => .terminate

end Instruction

namespace Machine

variable {c : Config} {m : Machine} {i : Instruction}

/-- The machine with the label of its line terminated. -/
def settled (m : Machine) : Machine := { m with store := m.store.terminateLabel m.line }

/-- The instruction on the current line, unless the line is skipped or
carries no command. -/
def instruction? (m : Machine) : Option Instruction :=
  if m.session.flow.isSkipping then none
  else (m.store.command? m.line).map fun c => m.settled.decode c (m.store.wordsOf m.line).2

/-- The skipping that goes on behind the current line, when it is skipped or
carries no command. -/
def flowPast (m : Machine) : Flow :=
  if m.session.flow.isSkipping then m.session.flow.past (m.store.command? m.line)
  else m.session.flow

/-! ## All at once -/

/-- Goes on at a line, or to the end of the run if that is past the script. -/
def goOn (m : Machine) (line : Nat) : Machine :=
  { m with line, stage := if m.store.inputSlot ≤ line then .terminate else .search }

/-- Goes past a line that is skipped or carries no command. -/
def passLine (m : Machine) : Machine :=
  { m.settled with session := { m.session with flow := m.flowPast } }.goOn (m.line + 1)

/-- The lines after a result was written to the line of the first operand. -/
def written (m : Machine) (i : Instruction) (write : Option Text) : Store :=
  match write, i.destination with
  | some t, some line => m.store.writeIfPresent line t
  | _, _ => m.store

/-- Does all of an instruction, unless it has to wait: the command, the write
to the line of the first operand, and the way on, or the end of the run. -/
def carryOut (m : Machine) (i : Instruction) : Option Machine :=
  match m.perform i (i.values m.store) with
  | (.proceed write jump, m') =>
    some ({ m' with store := m'.written i write }.goOn (jump.getD (m.line + 1)))
  | (.halt, m') => some m'.terminate
  | (.ask _, _) | (.pause _, _) => none

/-! ## Searching -/

/-- **What a search leads to.** -/
theorem search_eq (m : Machine) :
    m.search = if m.store.inputSlot ≤ m.line then m.enter .terminate else
      match m.instruction? with
      | some i => m.settled.enter i.firstStage
      | none => { m.settled with session := { m.session with flow := m.flowPast } }.enter
          (.advance none none) := by
  unfold Machine.search instruction? flowPast
  split
  · rfl
  · dsimp only
    have command : Command.ofKeyword? ((m.store.terminateLabel m.line).textFrom m.line
        (m.store.leading m.line).offset).keyword.1 = m.store.command? m.line := rfl
    rw [command]
    split
    · rfl
    · cases m.store.command? m.line <;> rfl

/-- When there is no instruction. -/
theorem instruction?_eq_none_iff : m.instruction? = none ↔
    m.session.flow.isSkipping = true ∨ m.store.command? m.line = none := by
  unfold instruction?
  split
  · next skipping => exact ⟨fun _ => .inl skipping, fun _ => rfl⟩
  · next unskipped =>
    rw [Option.map_eq_none_iff]
    exact ⟨.inr, fun h => h.resolve_left unskipped⟩

/-- A line without an instruction takes one more step. -/
theorem step_passLine :
    ({ m.settled with session := { m.session with flow := m.flowPast } }.enter
      (.advance none none)).step = m.passLine := rfl

/-! ## Reading operands -/

/-- One step reads one operand, and the last one read completes the sources. -/
theorem step_enumerate {k : Nat} (left : k < i.operands.length) :
    (m.enter (.enumerate i ((i.values m.store).take k))).step =
      m.enter (if i.operands.length ≤ k + 1 then .execute i (i.values m.store)
        else .enumerate i ((i.values m.store).take (k + 1))) := by
  have size : (i.values m.store).length = i.operands.length := List.length_map _
  have read : ((i.values m.store).take k).length = k := by
    rw [List.length_take, size]
    omega
  have next : (i.values m.store).take k ++ [i.operands[k].value i.command.signature.domain m.store]
      = (i.values m.store).take (k + 1) := by
    rw [← List.take_append_getElem (by rw [size]; exact left)]
    simp only [Instruction.values, List.getElem_map]
  have done : i.operands.length ≤ ((i.values m.store).take (k + 1)).length ↔
      i.operands.length ≤ k + 1 := by
    rw [List.length_take, size]
    omega
  change (m.enter _).enumerate i ((i.values m.store).take k) = _
  simp only [Machine.enumerate, enter, read, List.getElem?_eq_getElem left, next, done]
  split
  · next all => rw [List.take_of_length_le (by omega)]
  · rfl

/-- **The operands are read one after another**, in lines that do not change
meanwhile. -/
theorem iterate_step_enumerate {k : Nat} (left : k < i.operands.length) :
    step^[k] (m.enter (.enumerate i [])) = m.enter (.enumerate i ((i.values m.store).take k)) := by
  induction k with
  | zero => rfl
  | succ k ih =>
    rw [Function.iterate_succ_apply', ih (by omega), step_enumerate (by omega), if_neg (by omega)]

/-- After the last of them the command can be carried out. -/
theorem iterate_step_execute (some : 0 < i.operands.length) :
    step^[i.operands.length] (m.enter (.enumerate i [])) =
      m.enter (.execute i (i.values m.store)) := by
  obtain ⟨k, hk⟩ : ∃ k, i.operands.length = k + 1 := ⟨i.operands.length - 1, by omega⟩
  rw [hk, Function.iterate_succ_apply', iterate_step_enumerate (by omega),
    step_enumerate (by omega), if_pos (by omega)]

/-- The first stage of an instruction that reads operands. -/
theorem firstStage_of_reads (h : 0 < i.reads) : i.firstStage = .enumerate i [] := by
  unfold Instruction.reads at h
  split at h
  · omega
  · next domain =>
    have operands : i.operands ≠ [] := List.length_pos_iff.1 h
    unfold Instruction.firstStage
    simp [Signature.readsOperands, domain, operands]

/-- The first stage of one that does not. -/
theorem firstStage_of_reads_eq_zero (h : i.reads = 0) : i.firstStage = .execute i [] := by
  unfold Instruction.reads at h
  unfold Instruction.firstStage
  split at h
  · next domain => simp [Signature.readsOperands, domain]
  · simp [List.length_eq_zero_iff.1 h]

/-- With no operand to read, any sources do as well as the values. -/
theorem perform_of_reads_eq_zero (h : i.reads = 0) :
    m.perform i [] = m.perform i (i.values m.store) := by
  unfold Instruction.reads at h
  split at h
  · next domain => exact m.perform_unread _ _ domain
  · rw [Instruction.values, List.length_eq_zero_iff.1 h]
    rfl

/-! ## Carrying out -/

/-- The step that carries a command out. -/
theorem step_execute (m : Machine) (i : Instruction) (v : Sources) :
    (m.enter (.execute i v)).step =
      (m.perform i v).2.enter (i.stageAfter (m.perform i v).1) := by
  -- the command does the same in whatever stage
  have performed : (m.enter (.execute i v)).perform i v =
      ((m.perform i v).1, (m.perform i v).2.enter (.execute i v)) := by
    have listing := (m.framed_perform i v).listing
    refine (m.perform_showing (.execute i v) [] m.listing i v).trans ?_
    rw [← listing]
    rfl
  change (m.enter (.execute i v)).executeCommand i v = _
  unfold executeCommand
  rw [performed]
  dsimp only
  cases (m.perform i v).1 <;> rfl

theorem step_of_execute {v : Sources} (stage : m.stage = .execute i v) :
    m.step = (m.perform i v).2.enter (i.stageAfter (m.perform i v).1) := by
  have same : m = m.enter (.execute i v) := by rw [← stage]; rfl
  exact (congrArg step same).trans (m.step_execute i v)

/-- The step that writes a result and goes on. -/
theorem step_advance (m : Machine) (i : Instruction) (write : Option Text) (jump : Option Nat) :
    (m.enter (i.stageAfter (.proceed write jump))).step =
      { m with store := m.written i write }.goOn (jump.getD (m.line + 1)) := by
  unfold written Instruction.stageAfter
  cases write with
  | none => rfl
  | some t =>
    cases i.destination with
    | none => rfl
    | some line =>
      -- the write does not move the input line, so the order does not matter
      have slot := (m.store.evolves_writeIfPresent line t).inputSlot
      simp only [goOn, slot]
      rfl

/-- **Done at once**, a command that does not wait does what its last two
steps do. -/
theorem carryOut_eq (h : i.command.suspends = false) :
    m.carryOut i = some ((m.perform i (i.values m.store)).2.enter
      (i.stageAfter (m.perform i (i.values m.store)).1)).step := by
  have frame := m.framed_perform i (i.values m.store)
  have waits := m.suspends_perform i (i.values m.store)
  unfold carryOut
  generalize m.perform i (i.values m.store) = result at frame waits ⊢
  obtain ⟨effect, m'⟩ := result
  cases effect with
  | proceed write jump => rw [step_advance, ← show m'.line = m.line from frame.line]
  | halt => rfl
  | ask prompt | pause deadline =>
    rw [h] at waits
    cases waits

/-! ## Counting steps -/

/-- A search is one step. -/
theorem step_of_search (stage : m.stage = .search) : m.step = m.search := by
  unfold step
  rw [stage]

/-- **From the search to the command**: one step, and one for each operand
that is read. -/
theorem iterate_step_reads (inside : m.line < m.store.inputSlot) (stage : m.stage = .search)
    (h : m.instruction? = some i) :
    (∀ j, 1 ≤ j → j ≤ i.reads → ∃ v, step^[j] m = m.settled.enter (.enumerate i v)) ∧
      ∃ v, step^[i.reads + 1] m = m.settled.enter (.execute i v) ∧
        m.settled.perform i v = m.settled.perform i (i.values m.settled.store) := by
  have first : m.step = m.settled.enter i.firstStage := by
    rw [step_of_search stage, search_eq, if_neg (by omega), h]
  rcases Nat.eq_zero_or_pos i.reads with none | some
  · refine ⟨fun j _ _ => by omega, [], ?_, perform_of_reads_eq_zero none⟩
    rw [none, Function.iterate_one, first, firstStage_of_reads_eq_zero none]
  · have reads := Instruction.reads_eq_length some
    rw [firstStage_of_reads some] at first
    refine ⟨fun j pos le => ?_, i.values m.settled.store, ?_, rfl⟩
    · obtain ⟨k, rfl⟩ : ∃ k, j = k + 1 := ⟨j - 1, by omega⟩
      refine ⟨(i.values m.settled.store).take k, ?_⟩
      rw [Function.iterate_succ_apply, first, iterate_step_enumerate (by omega)]
    · rw [Function.iterate_succ_apply, first, reads, iterate_step_execute (by omega)]

/-- Then one step for the command. -/
theorem iterate_step_perform (inside : m.line < m.store.inputSlot) (stage : m.stage = .search)
    (h : m.instruction? = some i) :
    step^[i.reads + 2] m = (m.settled.perform i (i.values m.settled.store)).2.enter
      (i.stageAfter (m.settled.perform i (i.values m.settled.store)).1) := by
  obtain ⟨-, v, reached, same⟩ := iterate_step_reads inside stage h
  rw [Function.iterate_succ_apply', reached, step_execute, same]

/-- **The stages of an instruction do what it does at once**, in one step for
the search, one for each operand read, one for the command and one to go on
or to end. -/
theorem iterate_step_of_instruction (inside : m.line < m.store.inputSlot) (stage : m.stage = .search)
    (h : m.instruction? = some i) (waits : i.command.suspends = false) :
    (∀ j, 1 ≤ j → j ≤ i.reads → (step^[j] m).stage.phase = .enumerate) ∧
    (step^[i.reads + 1] m).stage.phase = .execute ∧
    (step^[i.reads + 2] m).stage.phase = (if i.command.halts then .terminate else .advance) ∧
    m.settled.carryOut i = some (step^[i.reads + 3] m) := by
  obtain ⟨reading, v, reached, -⟩ := iterate_step_reads inside stage h
  have carried := iterate_step_perform inside stage h
  refine ⟨fun j pos le => ?_, by rw [reached]; rfl, ?_, ?_⟩
  · obtain ⟨v, reads⟩ := reading j pos le
    rw [reads]
    rfl
  · have ends := m.settled.halts_perform i (i.values m.settled.store)
    have rests := m.settled.suspends_perform i (i.values m.settled.store)
    rw [carried, ← ends]
    rw [waits] at rests
    generalize (m.settled.perform i (i.values m.settled.store)).1 = effect at rests ⊢
    cases effect with
    | proceed | halt => rfl
    | ask | pause => cases rests
  · rw [carryOut_eq waits, Function.iterate_succ_apply', carried]

/-- Until it is done the machine runs on and waits for nothing. -/
theorem going_of_instruction (inside : m.line < m.store.inputSlot) (stage : m.stage = .search)
    (h : m.instruction? = some i) (waits : i.command.suspends = false) {k : Nat}
    (before : k < i.reads + 3) :
    (step^[k] m).running = m.running ∧ (step^[k] m).stage.isSuspended = false := by
  obtain ⟨reading, v, reached, -⟩ := iterate_step_reads inside stage h
  obtain rfl | ⟨pos, le⟩ | rfl | rfl :
      k = 0 ∨ (1 ≤ k ∧ k ≤ i.reads) ∨ k = i.reads + 1 ∨ k = i.reads + 2 := by
    omega
  · refine ⟨rfl, ?_⟩
    change m.stage.isSuspended = false
    rw [stage]
    rfl
  · obtain ⟨v, reads⟩ := reading k pos le
    rw [reads]
    exact ⟨rfl, rfl⟩
  · rw [reached]
    exact ⟨rfl, rfl⟩
  · have rests := m.settled.suspends_perform i (i.values m.settled.store)
    have frame := (m.settled.framed_perform i (i.values m.settled.store)).running
    rw [iterate_step_perform inside stage h]
    rw [waits] at rests
    refine ⟨frame, ?_⟩
    generalize (m.settled.perform i (i.values m.settled.store)).1 = effect at rests ⊢
    cases effect with
    | proceed | halt => rfl
    | ask | pause => cases rests

/-- **A line that is skipped or carries no command takes two steps.** -/
theorem iterate_step_of_none (inside : m.line < m.store.inputSlot) (stage : m.stage = .search)
    (h : m.instruction? = none) :
    m.step.stage.phase = .advance ∧ m.step.stage.isSuspended = false ∧
      m.step.running = m.running ∧ step^[2] m = m.passLine := by
  have first : m.step = { m.settled with session := { m.session with flow := m.flowPast } }.enter
      (.advance none none) := by
    rw [step_of_search stage, search_eq, if_neg (by omega), h]
  have second : step^[2] m = m.passLine := by
    rw [Function.iterate_succ_apply, Function.iterate_one, first, step_passLine]
  rw [first]
  exact ⟨rfl, rfl, rfl, second⟩

end Machine

end LineScript
