import LineScript.Processor
import LineScript.Proofs.Machine.Instruction
/-!
# What the registers hold

The registers of a processor can hold anything in any phase; `Pipeline.Tidy`
says what they do hold. An instruction that is searched for finds nothing of
the one before it, one that is read or carried out has a command, and nothing
is written, jumped to or awaited before it was carried out. Only a run that is
about to end may leave something behind, and ending it wipes the registers.

Tidy registers say in which stage an instruction stands (`Pipeline.stage`), and
so which machine a processor is (`Processor.machine`). Each phase leaves them
tidy and does what the stage does (`Tidy.realizes_step`): the two go together,
since what a phase clears is what the next stage does not have.
-/

namespace LineScript

/-! ## Registers -/

namespace Pipeline

variable {limit : Nat} {r : Pipeline} {e : Command}

/-- The registers hold what their phase needs, and nothing that another
instruction has left, where an instruction may keep `limit` operands. -/
structure Tidy (limit : Nat) (r : Pipeline) : Prop where
  /-- Before it is carried out, an instruction has no effect. -/
  idle : r.phase = .search ∨ r.phase = .enumerate ∨ r.phase = .execute →
    r.writeback = none ∧ r.jump = none ∧ r.suspension = none
  /-- Before it is found, there is none. -/
  blank : r.phase = .search →
    r.command = none ∧ r.operator = none ∧ r.operands = [] ∧ r.sources = []
  /-- Once it is found, there is one. -/
  decoded : r.phase = .enumerate ∨ r.phase = .execute → ∃ e, r.command = some e
  /-- What waits was carried out, and has nothing else to do. -/
  waiting : r.suspension ≠ none → r.phase = .advance ∧ r.writeback = none ∧ r.jump = none
  /-- No more operands are kept than the command takes and the machine allows. -/
  kept : ∀ e, r.command = some e → r.operands.length ≤ e.signature.keeps limit
  /-- Without a command there are none. -/
  bare : r.command = none → r.operands = []

/-- Registers with nothing but a line in them are tidy in every phase that
needs no more. -/
theorem tidy_line (limit line : Nat) {phase : Phase} (h : phase ≠ .enumerate ∧ phase ≠ .execute) :
    Tidy limit { phase, line } := by
  constructor <;> simp [h]

/-- The stage that the registers stand for, when they are tidy. -/
def stage (r : Pipeline) : Stage :=
  match r.phase with
  | .search => .search
  | .enumerate =>
    match r.command with
    | some e => .enumerate ⟨e, r.operator, r.operands⟩ r.sources
    | none => .search
  | .execute =>
    match r.command with
    | some e => .execute ⟨e, r.operator, r.operands⟩ r.sources
    | none => .search
  | .advance =>
    match r.suspension with
    | none => .advance r.writeback r.jump
    | some (.line prompt) => .awaiting prompt r.destination
    | some (.time deadline) => .sleeping deadline
  | .terminate => .terminate

theorem stage_search (phase : r.phase = .search) : r.stage = .search := by
  simp [stage, phase]

theorem stage_enumerate (phase : r.phase = .enumerate) (command : r.command = some e) :
    r.stage = .enumerate ⟨e, r.operator, r.operands⟩ r.sources := by
  simp [stage, phase, command]

theorem stage_execute (phase : r.phase = .execute) (command : r.command = some e) :
    r.stage = .execute ⟨e, r.operator, r.operands⟩ r.sources := by
  simp [stage, phase, command]

theorem stage_advance (phase : r.phase = .advance) (suspension : r.suspension = none) :
    r.stage = .advance r.writeback r.jump := by
  simp [stage, phase, suspension]

theorem stage_awaiting {prompt : Text} (phase : r.phase = .advance)
    (suspension : r.suspension = some (.line prompt)) :
    r.stage = .awaiting prompt r.destination := by
  simp [stage, phase, suspension]

theorem stage_sleeping {deadline : Nat} (phase : r.phase = .advance)
    (suspension : r.suspension = some (.time deadline)) :
    r.stage = .sleeping deadline := by
  simp [stage, phase, suspension]

theorem stage_terminate (phase : r.phase = .terminate) : r.stage = .terminate := by
  simp [stage, phase]

namespace Tidy

/-- The stage is of the phase that the registers say. -/
theorem phase_stage (h : r.Tidy limit) : r.stage.phase = r.phase := by
  cases phase : r.phase with
  | search => rw [stage_search phase, Stage.phase]
  | enumerate =>
    obtain ⟨e, command⟩ := h.decoded (.inl phase)
    rw [stage_enumerate phase command, Stage.phase]
  | execute =>
    obtain ⟨e, command⟩ := h.decoded (.inr phase)
    rw [stage_execute phase command, Stage.phase]
  | advance =>
    simp only [stage, phase]
    split <;> rfl
  | terminate => rw [stage_terminate phase, Stage.phase]

/-! What becomes of them in each phase. -/

/-- A line that is passed. -/
theorem pass (h : r.Tidy limit) (searching : r.phase = .search) :
    Tidy limit { r with phase := .advance } where
  idle := by simp
  blank := by simp
  decoded := by simp
  waiting := by simp [h.idle (.inl searching)]
  kept := h.kept
  bare := h.bare

/-- An instruction that is found. -/
theorem find (h : r.Tidy limit) (searching : r.phase = .search) {i : Instruction}
    (kept : i.operands.length ≤ i.command.signature.keeps limit) {phase : Phase}
    (begins : phase = .enumerate ∨ phase = .execute) :
    Tidy limit { r with
      command := some i.command, operator := i.operator, operands := i.operands, phase } where
  idle _ := h.idle (.inl searching)
  blank := by rcases begins with rfl | rfl <;> simp
  decoded := by simp
  waiting := by simp [h.idle (.inl searching)]
  kept := by simp [kept]
  bare := by simp

/-- Operands that are read. -/
theorem read (h : r.Tidy limit) (reading : r.phase = .enumerate) (sources : Sources) {phase : Phase}
    (goes : phase = .enumerate ∨ phase = .execute) :
    Tidy limit { r with sources, phase } where
  idle _ := h.idle (.inr (.inl reading))
  blank := by rcases goes with rfl | rfl <;> simp
  decoded _ := h.decoded (.inl reading)
  waiting := by simp [h.idle (.inr (.inl reading))]
  kept := h.kept
  bare := h.bare

/-- A command that was carried out, with its effects or with something to wait for. -/
theorem carry (h : r.Tidy limit) (writeback : Option (Nat × Text)) (jump : Option Nat)
    (suspension : Option Suspension) (alone : suspension ≠ none → writeback = none ∧ jump = none) :
    Tidy limit { r with writeback, jump, suspension, phase := .advance } where
  idle := by simp
  blank := by simp
  decoded := by simp
  waiting waits := ⟨rfl, alone waits⟩
  kept := h.kept
  bare := h.bare

/-- What was waited for and is there. -/
theorem answer (h : r.Tidy limit) (suspended : r.suspension ≠ none)
    (writeback : Option (Nat × Text)) :
    Tidy limit { r with writeback, suspension := none } where
  idle := by simp [h.waiting suspended]
  blank := by simp [h.waiting suspended]
  decoded := by simp [h.waiting suspended]
  waiting := by simp
  kept := h.kept
  bare := h.bare

/-- A run that is to be ended. It may leave anything behind, but does not wait. -/
theorem finish (h : r.Tidy limit) :
    Tidy limit { r with suspension := none, phase := .terminate } where
  idle := by simp
  blank := by simp
  decoded := by simp
  waiting := by simp
  kept := h.kept
  bare := h.bare

end Tidy

/-- Where nothing is to be written yet, the text that is kept is the only one. -/
theorem keep_of_unwritten (h : r.writeback = none) (t : Text) :
    r.keep t = { r with writeback := r.destination.map (·, t) } := by
  unfold keep
  cases r.destination with
  | none => rw [Option.map_none, ← h]
  | some line => rfl

end Pipeline

namespace Machine

/-- A machine decodes no more operands than the command takes and it allows. -/
theorem length_operands_le {m : Machine} {i : Instruction} (h : m.instruction? = some i) :
    i.operands.length ≤ i.command.signature.keeps m.config.args := by
  unfold instruction? at h
  split at h
  · cases h
  · obtain ⟨e, -, rfl⟩ := Option.map_eq_some_iff.1 h
    simp only [decode, List.length_map]
    exact Argument.length_parseAll_le _ _ _

end Machine

/-! ## Processors -/

namespace Processor

variable {p : Processor} {e : Command}

/-- A processor with tidy registers. One that does not run has nothing in them. -/
structure Tidy (p : Processor) : Prop where
  registers : p.pipeline.Tidy p.config.args
  stopped : p.running = false → p.pipeline = {}

/-- The machine that a processor is, when its registers are tidy. -/
def machine (p : Processor) : Machine := { p.bench with stage := p.pipeline.stage }

@[simp] theorem machine_session (p : Processor) : p.machine.session = p.session := rfl

@[simp] theorem machine_stage (p : Processor) : p.machine.stage = p.pipeline.stage := rfl

@[simp] theorem machine_running (p : Processor) : p.machine.running = p.running := rfl

/-- A processor with tidy registers that is the given machine. -/
structure Realizes (p : Processor) (m : Machine) : Prop where
  tidy : p.Tidy
  machine : p.machine = m

/-- **Processors and machines that turn on the same condition.** -/
theorem Realizes.ite {P : Prop} [Decidable P] {p p' : Processor} {m m' : Machine}
    (pos : P → p.Realizes m) (neg : ¬ P → p'.Realizes m') :
    (if P then p else p').Realizes (if P then m else m') := by
  split
  · exact pos ‹P›
  · exact neg ‹¬ P›

/-- The lines, the session and the board are the machine's own. -/
theorem Tidy.withParts (h : p.Tidy) (store : Store) (session : Session) (board : Board) :
    Realizes { p with store, session, board } { p.machine with store, session, board } :=
  ⟨⟨h.registers, h.stopped⟩, rfl⟩

/-- A running processor is tidy if its registers are. -/
theorem tidy_of_running (registers : p.pipeline.Tidy p.config.args) (running : p.running = true) :
    p.Tidy :=
  ⟨registers, fun stopped => absurd (running.symm.trans stopped) (by decide)⟩

/-- **What the registers of a running processor say is its stage.** -/
theorem realizes_of_tidy (running : p.running = true) {r : Pipeline}
    (tidy : r.Tidy p.config.args) (line : r.line = p.pipeline.line) {stage : Stage}
    (stands : r.stage = stage) :
    Realizes { p with pipeline := r } (p.machine.enter stage) := by
  refine ⟨tidy_of_running tidy running, ?_⟩
  simp only [machine, bench, Machine.enter, line, stands]

/-! ## Searching -/

/-- What is ended before it was carried out. -/
theorem Tidy.realizes_end (h : p.Tidy) (running : p.running = true)
    (suspension : p.pipeline.suspension = none) :
    (p.enter .terminate).Realizes (p.machine.enter .terminate) := by
  have ended := h.registers.finish
  rw [← suspension] at ended
  exact realizes_of_tidy running ended rfl rfl

/-- A line without a command has nothing to do. -/
theorem Tidy.realizes_pass (h : p.Tidy) (running : p.running = true)
    (phase : p.pipeline.phase = .search) :
    (p.enter .advance).Realizes (p.machine.enter (.advance none none)) := by
  obtain ⟨writeback, jump, suspension⟩ := h.registers.idle (.inl phase)
  refine realizes_of_tidy running (h.registers.pass phase) rfl ?_
  simp [Pipeline.stage, writeback, jump, suspension]

/-- The processor with a decoded instruction in its registers. -/
def found (p : Processor) (i : Instruction) : Processor :=
  { p with
    pipeline := { p.pipeline with
      command := some i.command, operator := i.operator, operands := i.operands
      phase := if i.operands.isEmpty || !i.command.signature.readsOperands then .execute
        else .enumerate } }

/-- What is decoded is the only thing in the registers. -/
theorem Tidy.realizes_found (h : p.Tidy) (running : p.running = true)
    (phase : p.pipeline.phase = .search) {i : Instruction}
    (kept : i.operands.length ≤ i.command.signature.keeps p.config.args) :
    (p.found i).Realizes (p.machine.enter i.firstStage) := by
  obtain ⟨-, -, -, sources⟩ := h.registers.blank phase
  unfold found Instruction.firstStage
  split
  · refine realizes_of_tidy running (h.registers.find phase kept (.inr rfl)) rfl ?_
    simp [Pipeline.stage, sources]
  · refine realizes_of_tidy running (h.registers.find phase kept (.inl rfl)) rfl ?_
    simp [Pipeline.stage, sources]

/-- The processor with the label of its line terminated, and with the skipping
that goes on behind it. -/
def settled (p : Processor) (flow : Flow) : Processor :=
  { p with store := p.store.terminateLabel p.pipeline.line, session := { p.session with flow } }

theorem Tidy.settled (h : p.Tidy) (flow : Flow) :
    (p.settled flow).Realizes { p.machine.settled with session := { p.session with flow } } :=
  h.withParts _ _ _

/-- **What a search leads to**: the instruction that the machine stands on. -/
theorem search_eq (p : Processor) :
    p.search = if p.store.inputSlot ≤ p.pipeline.line then p.enter .terminate else
      match p.machine.instruction? with
      | some i => (p.settled p.session.flow).found i
      | none => (p.settled p.machine.flowPast).enter .advance := by
  have words : ((p.store.terminateLabel p.pipeline.line).textFrom p.pipeline.line
      (p.store.leading p.pipeline.line).offset).keyword = p.store.wordsOf p.pipeline.line := rfl
  unfold search
  dsimp only
  refine ite_congr rfl (fun _ => rfl) fun before => ?_
  have there : p.pipeline.line < p.store.size := by
    rw [Store.inputSlot] at before
    omega
  rw [Store.skipLeading, if_pos there]
  dsimp only
  rw [words]
  cases skipping : p.session.flow.isSkipping with
  | true =>
    have none : p.machine.instruction? = none := if_pos skipping
    have past : p.machine.flowPast = p.session.flow.past (p.store.command? p.pipeline.line) :=
      if_pos skipping
    rw [none, past, Store.command?]
    cases Command.ofKeyword? (p.store.wordsOf p.pipeline.line).1 <;> rfl
  | false =>
    have decoded : p.machine.instruction? = (p.store.command? p.pipeline.line).map
        fun e => p.machine.settled.decode e (p.store.wordsOf p.pipeline.line).2 :=
      if_neg (by simp [skipping])
    have past : p.machine.flowPast = p.session.flow := if_neg (by simp [skipping])
    rw [decoded, past, Store.command?]
    cases Command.ofKeyword? (p.store.wordsOf p.pipeline.line).1 <;> rfl

/-- **A search does what the stage does.** -/
theorem Tidy.realizes_search (h : p.Tidy) (running : p.running = true)
    (phase : p.pipeline.phase = .search) : p.search.Realizes p.machine.search := by
  rw [search_eq, Machine.search_eq]
  refine Realizes.ite (fun _ => ?_) fun _ => ?_
  · exact h.realizes_end running (h.registers.idle (.inl phase)).2.2
  · cases decoded : p.machine.instruction? with
    | none => exact (h.settled p.machine.flowPast).tidy.realizes_pass running phase
    | some i =>
      exact (h.settled p.session.flow).tidy.realizes_found running phase
        (Machine.length_operands_le decoded)

/-! ## Reading operands -/

/-- The processor with so many sources read. -/
def sourced (p : Processor) (sources : Sources) : Processor :=
  { p with pipeline := { p.pipeline with sources } }

/-- Sources are read while there are operands left, and then used. -/
theorem Tidy.realizes_sourced (h : p.Tidy) (running : p.running = true)
    (phase : p.pipeline.phase = .enumerate) (command : p.pipeline.command = some e)
    (sources : Sources) :
    (if p.pipeline.operands.length ≤ sources.length then (p.sourced sources).enter .execute
      else p.sourced sources).Realizes
      (p.machine.enter (if p.pipeline.operands.length ≤ sources.length then
        .execute ⟨e, p.pipeline.operator, p.pipeline.operands⟩ sources
        else .enumerate ⟨e, p.pipeline.operator, p.pipeline.operands⟩ sources)) := by
  split
  · refine realizes_of_tidy running (h.registers.read phase sources (.inr rfl)) rfl ?_
    simp [Pipeline.stage, command]
  · have more := h.registers.read phase sources (.inl rfl)
    rw [← phase] at more
    refine realizes_of_tidy running more rfl ?_
    simp [Pipeline.stage, phase, command]

/-- **Reading an operand does what the stage does.** -/
theorem Tidy.realizes_enumerate (h : p.Tidy) (running : p.running = true)
    (phase : p.pipeline.phase = .enumerate) (command : p.pipeline.command = some e) :
    p.enumerate.Realizes
      (p.machine.enumerate ⟨e, p.pipeline.operator, p.pipeline.operands⟩ p.pipeline.sources) := by
  unfold enumerate Machine.enumerate
  rw [command]
  cases p.pipeline.operands[p.pipeline.sources.length]? with
  | none => exact h.realizes_sourced running phase command _
  | some operand => exact h.realizes_sourced running phase command _

/-! ## Carrying out -/

/-- **A command does what it does on the machine**, and leaves the registers alone. -/
theorem machine_dispatch (p : Processor) (e : Command) :
    let done := p.machine.perform ⟨e, p.pipeline.operator, p.pipeline.operands⟩ p.pipeline.sources
    (p.dispatch e).1 = done.1 ∧ (p.dispatch e).2.machine = done.2 := by
  -- the bench differs from the machine in what no command reads
  have shown : p.machine = p.bench.showing p.pipeline.stage [] p.listing := rfl
  have frame := p.bench.framed_perform ⟨e, p.pipeline.operator, p.pipeline.operands⟩
    p.pipeline.sources
  dsimp only
  rw [shown, Machine.perform_showing]
  unfold dispatch
  dsimp only
  generalize p.bench.perform _ _ = x at frame
  obtain ⟨effect, m⟩ := x
  refine ⟨rfl, ?_⟩
  simp only [machine, bench, Machine.showing, List.nil_append, Machine.mk.injEq, true_and]
  exact ⟨frame.config.symm, frame.line.symm, frame.running.symm, frame.cursor.symm,
    frame.interrupted.symm⟩

/-- **Carrying out a command does what the stage does.** -/
theorem Tidy.realizes_executeCommand (h : p.Tidy) (running : p.running = true)
    (phase : p.pipeline.phase = .execute) (command : p.pipeline.command = some e) :
    p.executeCommand.Realizes (p.machine.executeCommand
      ⟨e, p.pipeline.operator, p.pipeline.operands⟩ p.pipeline.sources) := by
  obtain ⟨writeback, -, suspension⟩ := h.registers.idle (.inr (.inr phase))
  obtain ⟨told, done⟩ := p.machine_dispatch e
  have tidy : (p.dispatch e).2.Tidy := ⟨h.registers, h.stopped⟩
  have runs : (p.dispatch e).2.running = true := running
  have unwritten : (p.dispatch e).2.pipeline.writeback = none := writeback
  unfold executeCommand Machine.executeCommand
  rw [command]
  dsimp only
  rw [← told, ← done]
  cases (p.dispatch e).1 with
  | proceed write jump =>
    cases write with
    | none =>
      -- the register for the write is left as it is, and it is empty
      have carried := tidy.registers.carry (p.dispatch e).2.pipeline.writeback jump none (absurd rfl)
      exact realizes_of_tidy runs carried rfl (congrArg (Stage.advance · jump) unwritten)
    | some t =>
      have carried := tidy.registers.carry ((p.dispatch e).2.pipeline.destination.map (·, t)) jump
        none (absurd rfl)
      dsimp only [Effect.result?]
      rw [Pipeline.keep_of_unwritten unwritten t]
      exact realizes_of_tidy runs carried rfl rfl
  | ask prompt =>
    have carried := tidy.registers.carry (p.dispatch e).2.pipeline.writeback none
      (some (.line prompt)) fun _ => ⟨unwritten, rfl⟩
    exact realizes_of_tidy runs carried rfl rfl
  | pause deadline =>
    have carried := tidy.registers.carry (p.dispatch e).2.pipeline.writeback none
      (some (.time deadline)) fun _ => ⟨unwritten, rfl⟩
    exact realizes_of_tidy runs carried rfl rfl
  | halt => exact tidy.realizes_end runs suspension

/-! ## Going on -/

/-- What is written does not move the input line. -/
theorem inputSlot_goOn (p : Processor) : p.goOn.store.inputSlot = p.store.inputSlot := by
  unfold goOn
  dsimp only
  split
  · exact (Store.evolves_writeIfPresent _ _ _).inputSlot
  · rfl

/-- **Going on does what the stage does**, and leaves nothing in the registers
but the line. -/
theorem realizes_goOn (running : p.running = true) (suspension : p.pipeline.suspension = none)
    {write : Option (Nat × Text)} (writeback : p.pipeline.writeback = write)
    {target : Option Nat} (jump : p.pipeline.jump = target) :
    p.goOn.Realizes (p.machine.advance write target) := by
  subst writeback jump
  -- the processor looks for the end of the script after it has written, the machine before
  have slot := p.inputSlot_goOn
  unfold goOn at slot ⊢
  unfold Machine.advance
  simp only [Pipeline.clearScratch, suspension] at slot ⊢
  rw [slot]
  by_cases beyond : p.store.inputSlot ≤ p.pipeline.jump.getD (p.pipeline.line + 1)
  · have ends : p.machine.store.inputSlot ≤ p.pipeline.jump.getD (p.machine.line + 1) := beyond
    rw [if_pos beyond, if_pos ends]
    exact ⟨tidy_of_running (Pipeline.tidy_line _ _ (by decide)) running, rfl⟩
  · have stays : ¬ p.machine.store.inputSlot ≤ p.pipeline.jump.getD (p.machine.line + 1) := beyond
    rw [if_neg beyond, if_neg stays]
    exact ⟨tidy_of_running (Pipeline.tidy_line _ _ (by decide)) running, rfl⟩

/-- **Waiting for a time does what the stage does.** -/
theorem Tidy.realizes_wake (h : p.Tidy) (running : p.running = true) {deadline : Nat}
    (suspension : p.pipeline.suspension = some (.time deadline)) :
    p.advance.Realizes (p.machine.wake deadline) := by
  obtain ⟨-, writeback, jump⟩ := h.registers.waiting (by simp [suspension])
  unfold advance Machine.wake
  rw [suspension]
  refine Realizes.ite (fun _ => ?_) fun _ => ?_
  · exact ⟨⟨h.registers, h.stopped⟩, rfl⟩
  · let clock := p.board.clock.micros.2
    exact realizes_goOn (p := { p with
      board := { p.board with clock }
      pipeline := { p.pipeline with suspension := none } }) running rfl writeback jump

/-- **Waiting and going on do what the stage does.** -/
theorem Tidy.realizes_advance (h : p.Tidy) (running : p.running = true)
    (phase : p.pipeline.phase = .advance) : p.advance.Realizes p.machine.step := by
  unfold Machine.step
  rw [machine_stage]
  cases suspension : p.pipeline.suspension with
  | none =>
    rw [Pipeline.stage_advance phase suspension, advance, suspension]
    exact realizes_goOn running suspension rfl rfl
  | some awaited =>
    cases awaited with
    | line prompt =>
      rw [Pipeline.stage_awaiting phase suspension, advance, suspension]
      exact ⟨h, rfl⟩
    | time deadline =>
      rw [Pipeline.stage_sleeping phase suspension]
      exact h.realizes_wake running suspension

/-! ## Ending -/

/-- **Ending a run does what the stage does**, and wipes the registers. -/
theorem realizes_terminate (p : Processor) : p.terminate.Realizes p.machine.terminate :=
  ⟨⟨Pipeline.tidy_line _ _ (by decide), fun _ => rfl⟩, rfl⟩

/-- **Each phase does what the stage does.** -/
theorem Tidy.realizes_step (h : p.Tidy) (running : p.running = true) :
    p.step.Realizes p.machine.step := by
  unfold step
  cases phase : p.pipeline.phase with
  | search =>
    rw [Machine.step, machine_stage, Pipeline.stage_search phase]
    exact h.realizes_search running phase
  | enumerate =>
    obtain ⟨e, command⟩ := h.registers.decoded (.inl phase)
    rw [Machine.step, machine_stage, Pipeline.stage_enumerate phase command]
    exact h.realizes_enumerate running phase command
  | execute =>
    obtain ⟨e, command⟩ := h.registers.decoded (.inr phase)
    rw [Machine.step, machine_stage, Pipeline.stage_execute phase command]
    exact h.realizes_executeCommand running phase command
  | advance => exact h.realizes_advance running phase
  | terminate =>
    rw [Machine.step, machine_stage, Pipeline.stage_terminate phase]
    exact p.realizes_terminate

end Processor

end LineScript
