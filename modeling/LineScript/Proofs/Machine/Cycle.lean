import LineScript.Proofs.Machine.Stepped
/-!
# Cycles between the steps

A host sees the steps of a machine through cycles, some of which only show
what was printed or listed. They do not matter to the steps
(`executes_of_quiet`), and a host that goes on executing gets as many of those
as there are (`exists_executes`). So what is counted in steps holds for a host:
`stages_refine_instructions` says what a line does, in steps and for a host
that only executes.
-/

namespace LineScript

namespace Machine

variable {c : Config} {m : Machine} {i : Instruction}

/-! ## What waits to be shown -/

/-- The machine without what waits to be shown. -/
def unshown (m : Machine) : Machine := { m with output := [], listing := none }

/-- **A step does not read what waits to be shown.** -/
theorem unshown_step (m : Machine) : m.unshown.step.unshown = m.step.unshown := by
  cases stage : m.stage with
  | search =>
    rw [step_of_search stage, step_of_search (show m.unshown.stage = .search from stage),
      search_eq, search_eq]
    have inside : m.unshown.store.inputSlot = m.store.inputSlot := rfl
    have line : m.unshown.line = m.line := rfl
    have decoded : m.unshown.instruction? = m.instruction? := rfl
    rw [inside, line, decoded]
    split
    · rfl
    · cases m.instruction? <;> rfl
  | execute i v =>
    -- what was printed before only stands in front of what the command prints
    have shown : m = m.unshown.showing m.stage m.output m.listing := by
      simp only [showing, unshown, List.append_nil]
    have performed := m.unshown.perform_showing m.stage m.output m.listing i v
    rw [← shown] at performed
    unfold step
    rw [show m.unshown.stage = m.stage from rfl, stage]
    simp only [executeCommand, performed]
    cases (m.unshown.perform i v).1 <;> rfl
  | sleeping deadline =>
    unfold step
    rw [show m.unshown.stage = m.stage from rfl, stage]
    unfold Machine.wake
    have now : m.unshown.board = m.board := rfl
    simp only [now]
    split <;> rfl
  | enumerate i v | advance write jump | awaiting prompt destination | terminate =>
    unfold step
    rw [show m.unshown.stage = m.stage from rfl, stage]
    rfl

/-- So machines that differ in nothing else take the same steps. -/
theorem iterate_step_unshown {m' : Machine} (h : m.unshown = m'.unshown) (k : Nat) :
    (step^[k] m).unshown = (step^[k] m').unshown := by
  induction k with
  | zero => exact h
  | succ k ih =>
    rw [Function.iterate_succ_apply', Function.iterate_succ_apply', ← unshown_step, ih, unshown_step]

/-- No step takes note of a break, or forgets one. -/
theorem interrupted_step (m : Machine) : m.step.interrupted = m.interrupted := by
  have stepped := m.stepped
  generalize m.step = m' at stepped
  cases stepped with
  | @performed i v => exact (m.framed_perform i v).interrupted
  | past | found | passed | read | advanced | awaits | slept | woken | ended => rfl

/-- Nor do several. -/
theorem interrupted_iterate_step (k : Nat) (m : Machine) :
    (step^[k] m).interrupted = m.interrupted := by
  induction k with
  | zero => rfl
  | succ k ih => rw [Function.iterate_succ_apply', interrupted_step, ih]

/-! ## Cycles -/

/-- Obeying a break only changes the stage. -/
theorem obey_cases (m : Machine) (running : m.running = true) :
    m.obey = m ∨ m.obey.stage = .terminate := by
  simp only [obey, running, if_true]
  split
  · exact .inr rfl
  · exact .inl rfl

theorem obey_of_quiet (quiet : m.interrupted = false) : m.obey = m := by
  unfold obey
  rw [quiet]
  rfl

/-- **A cycle without a break** shows what waits to be shown, finds nothing to
do, or makes a step. -/
theorem cycle_of_quiet (quiet : m.interrupted = false) :
    (∃ e, m.cycle.1 = some e ∧ m.cycle.2.interrupted = false ∧ m.cycle.2.unshown = m.unshown) ∨
      m.cycle = (none, m.step) := by
  unfold cycle
  rw [obey_of_quiet quiet]
  split
  · exact .inl ⟨_, rfl, quiet, rfl⟩
  · split
    · exact .inl ⟨_, rfl, quiet, rfl⟩
    · dsimp only
      split
      · exact .inl ⟨_, rfl, quiet, rfl⟩
      · split
        · exact .inl ⟨_, rfl, quiet, rfl⟩
        · exact .inr rfl

/-- So a call makes some steps, apart from what it shows. -/
theorem execute_of_quiet (cycles : Nat) (quiet : m.interrupted = false) :
    (m.execute cycles).2.interrupted = false ∧
      ∃ k, (m.execute cycles).2.unshown = (step^[k] m).unshown := by
  induction cycles generalizing m with
  | zero => exact ⟨quiet, 0, rfl⟩
  | succ cycles ih =>
    unfold execute
    rcases cycle_of_quiet quiet with ⟨e, told, quiet', same⟩ | silent
    · have cycle : m.cycle = (some e, m.cycle.2) := Prod.ext told rfl
      rw [cycle]
      exact ⟨quiet', 0, same⟩
    · rw [silent]
      obtain ⟨quiet', k, reached⟩ := ih (m.interrupted_step.trans quiet)
      exact ⟨quiet', k + 1, reached⟩

/-- And so do calls that only execute. -/
theorem executes_of_quiet (cycles : List Nat) (quiet : m.interrupted = false) :
    ∃ k, (m.calls (cycles.map .execute)).unshown = (step^[k] m).unshown := by
  induction cycles generalizing m with
  | nil => exact ⟨0, rfl⟩
  | cons n rest ih =>
    obtain ⟨quiet', k, reached⟩ := execute_of_quiet n quiet
    obtain ⟨k', reached'⟩ := ih quiet'
    refine ⟨k' + k, reached'.trans ?_⟩
    rw [Function.iterate_add_apply]
    exact iterate_step_unshown reached k'

/-! ## Hosts that go on executing -/

/-- A call of one cycle. -/
theorem call_execute_one (m : Machine) : (m.call (.execute 1)).2 = m.cycle.2 := by
  unfold call execute
  dsimp only
  split
  · next made => rw [made]
  · next made =>
    rw [made]
    rfl

theorem calls_execute_one (n : Nat) (m : Machine) :
    m.calls (List.replicate n (.execute 1)) = (fun m => m.cycle.2)^[n] m := by
  induction n generalizing m with
  | zero => rfl
  | succ n ih =>
    rw [List.replicate_succ, Function.iterate_succ_apply, ← call_execute_one]
    exact ih _

/-- With nothing to show, a cycle is a step. -/
theorem cycle_of_shown (output : m.output = []) (listing : m.listing = none)
    (quiet : m.interrupted = false) (running : m.running = true)
    (free : m.stage.isSuspended = false) : m.cycle = (none, m.step) := by
  simp only [cycle, output, listing, obey_of_quiet quiet, running, List.isEmpty_nil, Bool.not_true,
    Bool.false_eq_true, if_false]
  cases stage : m.stage with
  | awaiting prompt destination =>
    rw [stage] at free
    cases free
  | search | enumerate | execute | advance | sleeping | terminate => rfl

/-- Some cycles show what waits to be shown. -/
theorem exists_cycles_unshown (m : Machine) : ∃ n, (fun m => m.cycle.2)^[n] m = m.unshown := by
  have listed : ∀ m : Machine, m.output = [] → ∃ n, (fun m => m.cycle.2)^[n] m = m.unshown := by
    intro m output
    cases listing : m.listing with
    | none =>
      refine ⟨0, ?_⟩
      unfold unshown
      rw [← output, ← listing]
      rfl
    | some l =>
      have told : m.cycle.2 = { m with listing := none } := by
        simp only [cycle, output, listing]
        rfl
      refine ⟨1, ?_⟩
      rw [Function.iterate_one, told]
      unfold unshown
      rw [← output]
  cases output : m.output with
  | nil => exact listed m output
  | cons first rest =>
    obtain ⟨n, shown⟩ := listed { m with output := [] } rfl
    refine ⟨n + 1, ?_⟩
    have printed : m.cycle.2 = { m with output := [] } := by
      simp only [cycle, output]
      rfl
    rw [Function.iterate_succ_apply, printed, shown]
    rfl

/-- **A host that goes on executing gets every step** of a machine that runs
on and waits for nothing. -/
theorem exists_executes {j : Nat} (quiet : m.interrupted = false)
    (goes : ∀ k < j, (step^[k] m).running = true ∧ (step^[k] m).stage.isSuspended = false) :
    ∃ n, (m.calls (List.replicate n (.execute 1))).unshown = (step^[j] m).unshown := by
  simp only [calls_execute_one]
  -- after the cycles that made `j` steps, some that show and one more step
  induction j with
  | zero => exact ⟨0, rfl⟩
  | succ j ih =>
    obtain ⟨n, reached⟩ := ih fun k lt => goes k (Nat.lt_succ_of_lt lt)
    obtain ⟨running, free⟩ := goes j (Nat.lt_succ_self j)
    have undisturbed := (interrupted_iterate_step j m).trans quiet
    obtain ⟨shows, shown⟩ := exists_cycles_unshown ((fun m => m.cycle.2)^[n] m)
    rw [← Function.iterate_add_apply] at shown
    have stepped : (step^[j] m).unshown.cycle = (none, (step^[j] m).unshown.step) :=
      cycle_of_shown rfl rfl undisturbed running free
    refine ⟨1 + (shows + n), ?_⟩
    rw [Function.iterate_add_apply, shown, reached, Function.iterate_one, stepped,
      Function.iterate_succ_apply']
    exact unshown_step _

/-! ## Refinement -/

/-- **The stages refine instructions done at once.** From a search, a line
that is skipped or carries no command takes two steps. An instruction that
does not wait takes three and one for each operand it reads, and the machine
is then what carrying the instruction out makes of it. A host that only
executes gets these steps and no others, but for what they show. -/
theorem stages_refine_instructions (h : Reachable c m) (stage : m.stage = .search) :
    ((m.session.flow.isSkipping = true ∨ m.store.command? m.line = none) →
      m.step.stage.phase = .advance ∧ step^[2] m = m.passLine) ∧
    (∀ i, m.instruction? = some i → i.command.suspends = false →
      (∀ j, 1 ≤ j → j ≤ i.reads → (step^[j] m).stage.phase = .enumerate) ∧
      (step^[i.reads + 1] m).stage.phase = .execute ∧
      (step^[i.reads + 2] m).stage.phase = (if i.command.halts then .terminate else .advance) ∧
      m.settled.carryOut i = some (step^[i.reads + 3] m)) ∧
    (m.interrupted = false →
      (∀ cycles : List Nat, ∃ k,
        (m.calls (cycles.map .execute)).unshown = (step^[k] m).unshown) ∧
      (m.running = true → m.instruction? = none → ∀ j ≤ 2, ∃ n,
        (m.calls (List.replicate n (.execute 1))).unshown = (step^[j] m).unshown) ∧
      (m.running = true → ∀ i, m.instruction? = some i → i.command.suspends = false →
        ∀ j ≤ i.reads + 3, ∃ n,
          (m.calls (List.replicate n (.execute 1))).unshown = (step^[j] m).unshown)) := by
  have inside : m.line < m.store.inputSlot := h.sound.inside (by rw [stage]; decide)
  refine ⟨fun none => ?_, fun i decoded waits => ?_, fun quiet => ⟨fun cycles => ?_, ?_, ?_⟩⟩
  · obtain ⟨phase, -, -, passed⟩ :=
      iterate_step_of_none inside stage (instruction?_eq_none_iff.2 none)
    exact ⟨phase, passed⟩
  · exact iterate_step_of_instruction inside stage decoded waits
  · exact executes_of_quiet cycles quiet
  · intro running none j le
    obtain ⟨-, free, runs, -⟩ := iterate_step_of_none inside stage none
    refine exists_executes quiet fun k lt => ?_
    obtain rfl | rfl : k = 0 ∨ k = 1 := by
      omega
    · exact ⟨running, congrArg Stage.isSuspended stage⟩
    · exact ⟨runs.trans running, free⟩
  · intro running i decoded waits j le
    refine exists_executes quiet fun k lt => ?_
    obtain ⟨runs, free⟩ := going_of_instruction inside stage decoded waits (Nat.lt_of_lt_of_le lt le)
    exact ⟨runs.trans running, free⟩

/-- A line that writes a number to itself takes five steps. -/
theorem stages_refine_instructions_copy :
    ∃ m i, Reachable { lines := 4, row := 16 } m ∧ m.stage.phase = .search ∧ m.running = true ∧
      m.instruction? = some i ∧ i.command = .copy ∧ m.settled.carryOut i = some (step^[5] m) := by
  have reached := (@Reachable.new { lines := 4, row := 16 } { clock := .stepped 0 } default _ rfl).calls
    [.write 1 "let @1 9".toList, .receive "run".toList]
  generalize stands : Machine.calls _ _ = m at reached
  have running : m.running = true := by
    rw [← stands]
    decide +kernel
  have stage : m.stage = .search := by
    rw [← stands]
    rfl
  have reads : m.instruction?.map (fun i => (i.command, i.reads)) = some (.copy, 2) := by
    rw [← stands]
    decide +kernel
  obtain ⟨i, decoded, kind⟩ := Option.map_eq_some_iff.1 reads
  obtain ⟨copies, two⟩ := Prod.mk.inj kind
  have waits : i.command.suspends = false := by
    rw [copies]
    rfl
  obtain ⟨-, refines, -⟩ := stages_refine_instructions reached stage
  obtain ⟨-, -, -, carried⟩ := refines i decoded waits
  rw [two] at carried
  exact ⟨m, i, reached, congrArg Stage.phase stage, running, decoded, copies, carried⟩

end Machine

end LineScript
