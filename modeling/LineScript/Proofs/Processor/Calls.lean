import LineScript.Proofs.Machine.Calls
import LineScript.Proofs.Processor.Phases
/-!
# Processors and their hosts

A processor and the machine it is give a host the same answers, whatever is
called and as often as it is called (`Tidy.replies`), because each call leaves
the registers tidy and the processor the machine after that call
(`Tidy.agree_call`). So what is known of machines is known of processors, and
of a processor in use it can be said what each of its registers holds
(`reachable_registers`).
-/

namespace LineScript

namespace Processor

variable {p : Processor} {c : Config}

/-- An answer of a processor that is also the machine's, with which the one is
the other afterwards. -/
structure Agree {α : Type} (x : α × Processor) (y : α × Machine) : Prop where
  answer : x.1 = y.1
  realizes : x.2.Realizes y.2

theorem Agree.ite {α : Type} {P : Prop} [Decidable P] {x x' : α × Processor} {y y' : α × Machine}
    (pos : P → Agree x y) (neg : ¬ P → Agree x' y') :
    Agree (if P then x else x') (if P then y else y') := by
  split
  · exact pos ‹P›
  · exact neg ‹¬ P›

/-! ## Cycles -/

/-- **A break does what it does to the machine.** What is ended keeps what is
in its registers until they are wiped, and waits no longer. -/
theorem Tidy.realizes_obey (h : p.Tidy) : p.obey.Realizes p.machine.obey := by
  -- the machine may change its stage, where the processor may change its registers
  have ends : { p.machine with
        interrupted := false, stage := if p.machine.running then .terminate else p.machine.stage } =
      if p.machine.running then ({ p.machine with interrupted := false }.enter .terminate)
      else { p.machine with interrupted := false } := by
    split <;> rfl
  unfold obey Machine.obey
  rw [ends]
  refine Realizes.ite (fun _ => Realizes.ite (fun running => ?_) fun _ => ?_) fun _ => ?_
  · exact realizes_of_tidy (p := { p with interrupted := false }) running h.registers.finish rfl rfl
  · exact ⟨⟨h.registers, h.stopped⟩, rfl⟩
  · exact ⟨h, rfl⟩

/-- A line is awaited when the registers say so. -/
theorem Tidy.stage_of_line (h : p.Tidy) {prompt : Text}
    (suspension : p.pipeline.suspension = some (.line prompt)) :
    p.machine.stage = .awaiting prompt p.pipeline.destination := by
  obtain ⟨phase, -, -⟩ := h.registers.waiting (by simp [suspension])
  exact Pipeline.stage_awaiting phase suspension

/-- And only then. -/
theorem line_of_stage {prompt : Text} {destination : Option Nat}
    (stage : p.machine.stage = .awaiting prompt destination) :
    p.pipeline.suspension = some (.line prompt) := by
  rw [machine_stage, Pipeline.stage] at stage
  split at stage
  · cases stage
  · split at stage <;> cases stage
  · split at stage <;> cases stage
  · split at stage
    · cases stage
    · next suspension =>
      cases stage
      exact suspension
    · cases stage
  · cases stage

/-- A processor that runs asks for a line or makes a step, as the machine does. -/
theorem Tidy.agree_turn (h : p.Tidy) (running : p.running = true) :
    Agree
      (match p.pipeline.suspension with
        | some (.line prompt) => (some (.input prompt), p)
        | _ => (none, p.step))
      (match p.machine.stage with
        | .awaiting prompt _ => (some (Event.input prompt), p.machine)
        | _ => (none, p.machine.step)) := by
  split
  · next prompt suspension =>
    rw [h.stage_of_line suspension]
    exact ⟨rfl, h, rfl⟩
  · next busy =>
    split
    · next prompt destination stage => exact absurd (line_of_stage stage) (busy prompt)
    · exact ⟨rfl, h.realizes_step running⟩

/-- **A cycle tells what it tells of the machine, and does what it does to it.** -/
theorem Tidy.agree_cycle (h : p.Tidy) : Agree p.cycle p.machine.cycle := by
  have listing : p.machine.listing = p.listing := rfl
  unfold cycle Machine.cycle
  refine Agree.ite (fun _ => ⟨rfl, ⟨h.registers, h.stopped⟩, rfl⟩) fun _ => ?_
  rw [listing]
  cases p.listing with
  | some l => exact ⟨rfl, ⟨h.registers, h.stopped⟩, rfl⟩
  | none =>
    have obeyed := h.realizes_obey
    dsimp only
    rw [← obeyed.machine, machine_running]
    refine Agree.ite (fun _ => ⟨rfl, obeyed.tidy, rfl⟩) fun running => ?_
    exact obeyed.tidy.agree_turn (by simpa using running)

/-- **So do the cycles of a call.** -/
theorem Tidy.agree_execute (h : p.Tidy) (cycles : Nat) :
    Agree (p.execute cycles) (p.machine.execute cycles) := by
  induction cycles generalizing p with
  | zero => exact ⟨rfl, h, rfl⟩
  | succ cycles ih =>
    have made := h.agree_cycle
    unfold execute Machine.execute
    generalize p.cycle = here at made
    generalize p.machine.cycle = there at made
    obtain ⟨event, p'⟩ := here
    obtain ⟨event', m'⟩ := there
    obtain ⟨rfl, tidy, rfl⟩ := made
    cases event with
    | some event => exact ⟨rfl, tidy, rfl⟩
    | none => exact ih tidy

/-! ## Entered lines -/

/-- A run begins with nothing in the registers. -/
theorem realizes_run (p : Processor) : p.run.Realizes p.machine.run :=
  ⟨tidy_of_running (Pipeline.tidy_line _ _ (by decide)) rfl, rfl⟩

/-- **The editor does what it does on the machine.** -/
theorem Tidy.realizes_edit (h : p.Tidy) (e : Edit) : (p.edit e).Realizes (p.machine.edit e) := by
  cases e with
  | run => exact p.realizes_run
  | clear => exact ⟨tidy_of_running (Pipeline.tidy_line _ _ (by decide)) rfl, rfl⟩
  | set number =>
    dsimp only [edit, Machine.edit, Machine.moveCursor]
    cases number.toNat? with
    | none => exact ⟨h, rfl⟩
    | some n => exact Realizes.ite (fun _ => ⟨⟨h.registers, h.stopped⟩, rfl⟩) fun _ => ⟨h, rfl⟩
  | insert | delete | list | write t => exact ⟨⟨h.registers, h.stopped⟩, rfl⟩

/-- The processor with an entered text in its input line. -/
def noting (p : Processor) (t : Text) : Processor :=
  { p with store := (p.store.write p.store.inputSlot t).2 }

theorem Tidy.realizes_noting (h : p.Tidy) (t : Text) :
    (p.noting t).Realizes (p.machine.noting t) := by
  refine ⟨⟨h.registers, h.stopped⟩, ?_⟩
  simp only [noting, Store.snd_write]
  rfl

/-- A processor that waits for a line takes one as its result. -/
theorem Tidy.realizes_answer (h : p.Tidy) (running : p.running = true) {prompt : Text}
    (suspension : p.pipeline.suspension = some (.line prompt)) (t : Text) :
    Realizes { p with pipeline := { p.pipeline.keep t with suspension := none } }
      (p.machine.enter (.advance (p.pipeline.destination.map (·, t)) none)) := by
  have suspended : p.pipeline.suspension ≠ none := by simp [suspension]
  obtain ⟨phase, writeback, jump⟩ := h.registers.waiting suspended
  rw [Pipeline.keep_of_unwritten writeback t]
  refine realizes_of_tidy running (h.registers.answer suspended _) rfl ?_
  simp [Pipeline.stage, phase, jump]

/-- **An entered line is taken as the machine takes it.** -/
theorem Tidy.agree_receive (h : p.Tidy) (t : Text) : Agree (p.receive t) (p.machine.receive t) := by
  have noted := h.realizes_noting t
  unfold receive
  by_cases broken : Machine.breakChar ∈ t
  · rw [if_pos broken, Machine.receive_of_break broken]
    exact ⟨rfl, ⟨h.registers, h.stopped⟩, rfl⟩
  · rw [if_neg broken]
    dsimp only
    by_cases running : p.running = true
    · rw [if_pos running]
      split
      · next prompt suspension =>
        have answered := noted.tidy.realizes_answer running suspension
          ((p.noting t).store.line p.store.inputSlot)
        rw [Machine.receive_of_awaiting broken running (h.stage_of_line suspension),
          ← noted.machine]
        exact ⟨rfl, answered⟩
      · next busy =>
        have waits : ∀ prompt destination, p.machine.stage ≠ .awaiting prompt destination :=
          fun prompt destination stage => busy prompt (line_of_stage stage)
        rw [Machine.receive_of_busy broken running waits]
        exact ⟨rfl, h, rfl⟩
    · have stopped : p.machine.running = false := by simpa using running
      have edited := noted.tidy.realizes_edit (Edit.ofText t.trim)
      rw [noted.machine] at edited
      rw [if_neg running, Machine.receive_of_stopped broken stopped]
      exact ⟨rfl, edited⟩

/-! ## Calls -/

/-- **A call is answered as by the machine, and does what it does to it.** -/
theorem Tidy.agree_call (h : p.Tidy) (k : HostCall) : Agree (p.call k) (p.machine.call k) := by
  cases k with
  | receive t =>
    have taken := h.agree_receive t
    exact ⟨congrArg Reply.received taken.answer, taken.realizes⟩
  | execute cycles =>
    have made := h.agree_execute cycles
    exact ⟨congrArg Reply.event made.answer, made.realizes⟩
  | interrupt | service | change c => exact ⟨rfl, ⟨h.registers, h.stopped⟩, rfl⟩

/-- The processor after some calls. -/
def calls (p : Processor) (ks : List HostCall) : Processor := ks.foldl (fun p k => (p.call k).2) p

/-- What a host learns from some calls. -/
def replies : (p : Processor) → List HostCall → List Reply
  | _, [] => []
  | p, k :: rest => (p.call k).1 :: replies (p.call k).2 rest

/-- **A host cannot tell a processor from its machine.** -/
theorem Tidy.replies (h : p.Tidy) (ks : List HostCall) :
    p.replies ks = p.machine.replies ks ∧ (p.calls ks).Realizes (p.machine.calls ks) := by
  induction ks generalizing p with
  | nil => exact ⟨rfl, h, rfl⟩
  | cons k rest ih =>
    obtain ⟨told, tidy, made⟩ := h.agree_call k
    obtain ⟨more, ends⟩ := ih tidy
    rw [made] at more ends
    exact ⟨by rw [Processor.replies, Machine.replies, told, more], ends⟩

/-! ## Every reachable processor -/

/-- The processors of a configuration that calls of a host lead to. -/
inductive Reachable (c : Config) : Processor → Prop where
  | new {board : Board} {g : Generator} {p : Processor} :
      Processor.new c board g = .ok p → Reachable c p
  | call {p : Processor} (k : HostCall) : Reachable c p → Reachable c (p.call k).2

theorem Reachable.calls (h : Reachable c p) (ks : List HostCall) : Reachable c (p.calls ks) := by
  induction ks generalizing p with
  | nil => exact h
  | cons k rest ih => exact ih (h.call k)

/-- A new processor is a new machine. -/
theorem map_new (c : Config) (board : Board) (g : Generator) :
    (Processor.new c board g).map machine = Machine.new c board g := by
  simp only [Processor.new, Machine.new, Config.validate]
  split <;> rfl

/-- It has nothing in its registers. -/
theorem tidy_new {board : Board} {g : Generator} (h : Processor.new c board g = .ok p) :
    p.Tidy := by
  simp only [Processor.new, Config.validate] at h
  split at h
  · cases h
  · cases h
    exact ⟨Pipeline.tidy_line _ _ (by decide), fun _ => rfl⟩

/-- **A processor in use has tidy registers, and is a machine in use.** -/
theorem Reachable.realizes (h : Reachable c p) : p.Tidy ∧ Machine.Reachable c p.machine := by
  induction h with
  | @new board g p made =>
    have new := map_new c board g
    rw [made] at new
    exact ⟨tidy_new made, .new new.symm⟩
  | call k _ ih =>
    obtain ⟨tidy, reached⟩ := ih
    obtain ⟨-, after, made⟩ := tidy.agree_call k
    exact ⟨after, made ▸ reached.call k⟩

/-- And every machine in use is such a processor's. -/
theorem exists_realizes {m : Machine} (h : Machine.Reachable c m) :
    ∃ p, Reachable c p ∧ p.Realizes m := by
  induction h with
  | @new board g m made =>
    rw [← map_new] at made
    cases built : Processor.new c board g with
    | error fault =>
      rw [built] at made
      cases made
    | ok p =>
      rw [built] at made
      cases made
      exact ⟨p, .new built, tidy_new built, rfl⟩
  | call k _ ih =>
    obtain ⟨p, reached, tidy, rfl⟩ := ih
    exact ⟨_, reached.call k, (tidy.agree_call k).realizes⟩

/-- **What the registers hold**, whatever a host has done: before it is carried
out, an instruction has nothing to write, to jump to or to wait for, and before
it is found there is none; what is read and what is carried out has a command
and its sources; and the bounds of the session hold. -/
theorem reachable_registers (h : Reachable c p) :
    (p.pipeline.phase = .search ∨ p.pipeline.phase = .enumerate ∨ p.pipeline.phase = .execute →
      p.pipeline.writeback = none ∧ p.pipeline.jump = none ∧ p.pipeline.suspension = none) ∧
    (p.pipeline.phase = .search →
      p.pipeline.command = none ∧ p.pipeline.operator = none ∧ p.pipeline.operands = [] ∧
        p.pipeline.sources = []) ∧
    (p.pipeline.phase = .enumerate → ∃ e, p.pipeline.command = some e ∧
      e.signature.domain ≠ .none ∧ p.pipeline.sources.length < p.pipeline.operands.length) ∧
    (p.pipeline.phase = .execute → ∃ e, p.pipeline.command = some e ∧
      (e.signature.domain ≠ .none →
        p.pipeline.sources.length = p.pipeline.operands.length)) ∧
    (p.pipeline.suspension ≠ none → p.running = true ∧ p.pipeline.phase = .advance) ∧
    (p.pipeline.phase ≠ .terminate → p.pipeline.line < p.store.inputSlot) ∧
    (∀ e, p.pipeline.command = some e →
      p.pipeline.operands.length ≤ e.signature.keeps c.args) ∧
    (p.pipeline.command = none → p.pipeline.operands = []) ∧
    (p.session.flow.skip = none → p.session.flow.nest = 0) ∧
    p.session.link.size ≤ c.linkDepth ∧
    (1 ≤ p.session.scratch ∧ p.session.scratch ≤ c.lines - 2) ∧
    p.session.labels.size ≤ c.labels ∧
    (1 ≤ p.cursor ∧ p.cursor ≤ c.lines - 2) ∧
    p.store.size = c.lines ∧
    (p.running = false → p.pipeline = {}) := by
  obtain ⟨tidy, reached⟩ := h.realizes
  have registers := tidy.registers
  have sound := reached.sound
  have config : p.config = c := sound.config
  have phase : p.machine.stage.phase = p.pipeline.phase := registers.phase_stage
  rw [config] at registers
  refine ⟨registers.idle, registers.blank, fun reading => ?_, fun executing => ?_,
    fun suspended => ?_, fun running => sound.inside (phase ▸ running), registers.kept,
    registers.bare, sound.session.settled, sound.session.linkSize,
    ⟨sound.session.scratch_pos, sound.session.scratch_le⟩, sound.session.labelSize,
    ⟨sound.cursor_pos, sound.cursor_le⟩, sound.size, tidy.stopped⟩
  · obtain ⟨e, command⟩ := registers.decoded (.inl reading)
    have stage : p.machine.stage = _ := Pipeline.stage_enumerate reading command
    obtain ⟨i, holds, domain, left⟩ := sound.stage.reading (phase.trans reading)
    rw [stage] at holds left
    cases holds
    exact ⟨e, command, domain, left⟩
  · obtain ⟨e, command⟩ := registers.decoded (.inr executing)
    have stage : p.machine.stage = _ := Pipeline.stage_execute executing command
    obtain ⟨i, holds, all⟩ := sound.stage.executing (phase.trans executing)
    rw [stage] at holds all
    cases holds
    exact ⟨e, command, all⟩
  · refine ⟨?_, (registers.waiting suspended).1⟩
    by_contra stopped
    exact suspended (by rw [tidy.stopped (by simpa using stopped)])

/-- They hold of a processor that reads an operand, and of the same processor
when it stands at the line after that. -/
theorem reachable_registers_push :
    ∃ p q, Reachable { lines := 4, row := 8 } p ∧ q = p.calls [.execute 3] ∧
      p.pipeline.phase = .enumerate ∧ (∃ e, p.pipeline.command = some e ∧
        e.signature.domain ≠ .none ∧ p.pipeline.sources.length < p.pipeline.operands.length) ∧
      q.pipeline.phase = .search ∧ q.pipeline.line = 2 ∧ q.pipeline.writeback = none ∧
      q.pipeline.command = none ∧ q.pipeline.operands = [] ∧ q.session.scratch ≤ 2 := by
  have reached := (@Reachable.new { lines := 4, row := 8 } { clock := .stepped 0 } default _ rfl).calls
    [.write 1 "push 1".toList, .receive "run".toList, .execute 1]
  generalize stands : Processor.calls _ _ = p at reached
  have reading : p.pipeline.phase = .enumerate := by
    rw [← stands]
    decide +kernel
  have next : (p.calls [.execute 3]).pipeline.phase = .search ∧
      (p.calls [.execute 3]).pipeline.line = 2 := by
    rw [← stands]
    decide +kernel
  obtain ⟨-, -, read, -⟩ := reachable_registers reached
  obtain ⟨idle, blank, -, -, -, -, -, -, -, -, scratch, -⟩ :=
    reachable_registers (reached.calls [.execute 3])
  exact ⟨p, _, reached, rfl, reading, read reading, next.1, next.2, (idle (.inl next.1)).1,
    (blank next.1).1, (blank next.1).2.2.1, scratch.2⟩

end Processor

end LineScript
