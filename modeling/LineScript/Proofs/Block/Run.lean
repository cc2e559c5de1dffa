import LineScript.Proofs.Block.Track
/-!
# Runs of nested scripts

In a script whose blocks are properly nested a machine executes the lines that
the structured reading names, and on each of them the link stack holds the
heads of the open loops (`nested_run`). This is so for either outcome of every
condition, whatever the host does meanwhile, as long as no line gets another
command.
-/

namespace LineScript

namespace Machine

variable {c : Config} {m : Machine} {command : Nat → Option Command} {b : Block}
variable {lines : List (Nat × Bool)}

/-! ## Runs -/

/-- The lines the next cycle executes. -/
def executed (m : Machine) : List (Nat × Bool) :=
  match m.cycle.1 with
  | some _ => []
  | none => m.obey.executing

/-- A run of a script, from the machine in which it is started to one it
leads to, with the lines that were executed: cycle by cycle, as every call of
`execute` makes them, and whatever the host does between the cycles, while all
lines carry the same commands. -/
inductive Run (command : Nat → Option Command) :
    (first : Machine) → List (Nat × Bool) → Machine → Prop where
  | start {first : Machine} {t : Text} : first.running = false → breakChar ∉ t →
      Edit.ofText t.trim = .run → (first.receive t).2.Carries command →
      Run command first [] (first.receive t).2
  | cycle {first m : Machine} {lines : List (Nat × Bool)} : Run command first lines m →
      m.running = true → m.cycle.2.Carries command →
      Run command first (lines ++ m.executed) m.cycle.2
  | call {first m : Machine} {lines : List (Nat × Bool)} (k : HostCall) :
      Run command first lines m → m.running = true → (∀ n, k ≠ .execute n) →
      (m.call k).2.Carries command → Run command first lines (m.call k).2

/-- The lines some cycles execute. -/
def executedIn : Nat → Machine → List (Nat × Bool)
  | 0, _ => []
  | n + 1, m => m.executed ++ executedIn n m.cycle.2

/-- A run that goes on for some cycles. -/
theorem Run.cycles {first : Machine} (n : Nat) (run : Run command first lines m)
    (keeps : ∀ k < n, ((fun m => m.cycle.2)^[k] m).running = true ∧
      ((fun m => m.cycle.2)^[k + 1] m).Carries command) :
    Run command first (lines ++ executedIn n m) ((fun m => m.cycle.2)^[n] m) := by
  induction n generalizing m lines with
  | zero =>
    rw [executedIn, List.append_nil]
    exact run
  | succ n ih =>
    obtain ⟨running, carries⟩ := keeps 0 (Nat.succ_pos n)
    rw [executedIn, ← List.append_assoc]
    exact ih (run.cycle running carries) fun k lt => keeps (k + 1) (Nat.succ_lt_succ lt)

instance (command : Nat → Option Command) (m : Machine) : Decidable (m.Carries command) :=
  inferInstanceAs (Decidable (∀ line < m.store.inputSlot, 1 ≤ line →
    m.store.command? line = command line))

/-! ## Keeping track -/

/-- A machine that is not about to end its run. -/
def Going (m : Machine) : Prop := m.running = true ∧ m.stage.phase ≠ .terminate

/-- The last step of a run stops the machine. -/
theorem running_step_of_terminate (h : m.stage.phase = .terminate) : m.step.running = false := by
  unfold step
  cases stage : m.stage with
  | terminate => rfl
  | search | enumerate | execute | advance | awaiting | sleeping =>
    rw [stage] at h
    cases h

/-- A cycle of a machine that runs shows something, or makes a step. -/
theorem cycle_cases (m : Machine) (running : m.running = true) :
    (∃ e m', m.cycle = (some e, m') ∧ m'.control = m.control ∧ m'.line = m.line ∧
      (m'.stage = m.stage ∨ m'.stage = .terminate)) ∨ m.cycle = (none, m.obey.step) := by
  have obeyed : m.obey.control = m.control ∧ m.obey.line = m.line ∧ m.obey.running = m.running := by
    unfold obey
    split <;> exact ⟨rfl, rfl, rfl⟩
  have runs : ¬ (!m.obey.running) = true := by
    rw [obeyed.2.2, running]
    decide
  unfold cycle
  split
  · exact .inl ⟨_, _, rfl, rfl, rfl, .inl rfl⟩
  · split
    · exact .inl ⟨_, _, rfl, rfl, rfl, .inl rfl⟩
    · dsimp only
      rw [if_neg runs]
      split
      · refine .inl ⟨_, _, rfl, obeyed.1, obeyed.2.1, ?_⟩
        rcases m.obey_cases running with same | ended
        · rw [same]
          exact .inl rfl
        · exact .inr ended
      · exact .inr rfl

/-- **A cycle keeps track** until the run ends. -/
theorem Tracks.cycle (h : m.stage.phase ≠ .terminate → Tracks command b lines m)
    (script : b.IsScript c command) (sound : m.Sound c) (carries : m.Carries command)
    (running : m.running = true) (going : m.cycle.2.Going) :
    Tracks command b (lines ++ m.executed) m.cycle.2 := by
  obtain ⟨runs, going⟩ := going
  unfold Machine.executed
  rcases m.cycle_cases running with ⟨e, m', shown, control, line, stage⟩ | stepped
  · rw [shown] at going ⊢
    rw [List.append_nil]
    rcases stage with same | ended
    · exact (h (same ▸ going)).untouched control line same
    · rw [ended] at going
      exact absurd rfl going
  · rw [stepped] at runs going ⊢
    have before : m.obey.stage.phase ≠ .terminate := fun ended =>
      absurd (runs.symm.trans (running_step_of_terminate ended)) (by decide)
    -- a break would have led to the end of the run
    rcases m.obey_cases running with same | ended
    · rw [same] at before going ⊢
      exact (h before).step script sound carries before going
    · rw [ended] at before
      exact absurd rfl before

/-- Nor does a host end a run without executing. -/
theorem phase_call (running : m.running = true) (k : HostCall) (other : ∀ n, k ≠ .execute n) :
    (m.call k).2.stage.phase = m.stage.phase := by
  cases k with
  | execute n => exact absurd rfl (other n)
  | interrupt | service | change => rfl
  | receive t =>
    unfold call receive
    simp only [running, if_true]
    split
    · rfl
    · split
      · next stage =>
        rw [stage]
        rfl
      · rfl

/-- The start of a run. -/
theorem tracks_start {t : Text} (stopped : m.running = false) (unbroken : breakChar ∉ t)
    (runs : Edit.ofText t.trim = .run) : Tracks command b [] (m.receive t).2 := by
  have started : (m.receive t).2 = { m with store := m.store.writeIfPresent m.store.inputSlot t }.run := by
    unfold receive
    rw [if_neg unbroken]
    dsimp only
    rw [stopped, runs]
    rfl
  rw [started]
  refine ⟨Nat.le_refl 1, ⟨1, .here rfl, ?_, rfl⟩, fun i decoded => nomatch decoded⟩
  rw [Block.stack, Block.openLoops_of_le (Nat.le_refl 1)]
  rfl

/-- **A run keeps track**, whatever the host does between the cycles. -/
theorem Run.tracks {first : Machine} (run : Run command first lines m) (reached : Reachable c first)
    (script : b.IsScript c command) :
    m.Sound c ∧ m.Carries command ∧ (m.Going → Tracks command b lines m) := by
  induction run with
  | start stopped unbroken runs carries =>
    exact ⟨reached.sound.receive _, carries, fun _ => tracks_start stopped unbroken runs⟩
  | cycle _ running carries ih =>
    obtain ⟨sound, before, tracks⟩ := ih
    refine ⟨sound.cycle, carries, fun going => ?_⟩
    exact Tracks.cycle (fun on => tracks ⟨running, on⟩) script sound before running going
  | call k _ running other carries ih =>
    obtain ⟨sound, before, tracks⟩ := ih
    refine ⟨sound.call k, carries, fun going => ?_⟩
    have on := going.2
    rw [phase_call running k other] at on
    exact (tracks ⟨running, on⟩).call running k other

/-- **Nested scripts run as they read.** Wherever a search is about to handle
a line that is not skipped, the link stack holds the heads of the loops that
are open there, outermost at the bottom, and the lines executed so far, with
their outcomes, are those of the structured reading. -/
theorem nested_run {first : Machine} (reached : Reachable c first) (script : b.IsScript c command)
    (run : Run command first lines m) (running : m.running = true) (stage : m.stage = .search)
    (unskipped : m.session.flow.isSkipping = false) :
    m.session.link.entries.reverse = b.openLoops 1 m.line ∧ b.Leads 1 1 lines m.line := by
  obtain ⟨-, -, tracks⟩ := run.tracks reached script
  have on : m.Going := ⟨running, by rw [stage]; decide⟩
  have here : m.ahead = m.line := by
    rw [ahead, stage]
  obtain ⟨stack, leads⟩ := (tracks on).unskipped unskipped
  rw [here] at stack leads
  refine ⟨?_, leads⟩
  rw [stack, Block.stack, List.reverse_reverse]

/-- In a script of four lines, a loop that is left at once goes on past its end. -/
theorem nested_run_leave :
    ∃ first command lines m, Reachable { lines := 6, row := 16 } first ∧
      Run command first lines m ∧ m.running = true ∧ m.stage.phase = .search ∧ m.line = 4 ∧
      lines = [(1, true), (2, true)] ∧ m.session.link.entries = [] ∧
      Block.Leads (.loop .counting (.leave .done) (.plain none .done)) 1 1 lines m.line := by
  have reached := (@Reachable.new { lines := 6, row := 16 } { clock := .stepped 0 } default _ rfl).calls
    [.write 1 "for @4 1".toList, .write 2 "break".toList, .write 3 "next @4".toList]
  generalize stands : Machine.calls _ _ = first at reached
  let command : Nat → Option Command := fun line =>
    [none, some .count, some .leave, some .next][line]?.getD none
  have script : Block.IsScript (.loop .counting (.leave .done) (.plain none .done))
      { lines := 6, row := 16 } command := by
    have plain : ∀ k : Command, none = some k → k.isPlain = true := fun k same => nomatch same
    refine ⟨⟨rfl, ⟨rfl, trivial⟩, rfl, rfl, trivial⟩, ⟨⟨rfl, trivial⟩, plain, trivial⟩, rfl, by decide,
      fun line k ge le same => ?_⟩
    obtain rfl | rfl | rfl | rfl : line = 1 ∨ line = 2 ∨ line = 3 ∨ line = 4 := by
      have : line ≤ 4 := le
      omega
    all_goals cases same
    all_goals rfl
  have started : Run command first [] (first.receive "run".toList).2 := by
    refine .start ?_ (by decide) (by decide) ?_
    · rw [← stands]
      decide +kernel
    · rw [← stands]
      decide +kernel
  have run := started.cycles 10 (by rw [← stands]; decide +kernel)
  have lines : executedIn 10 (first.receive "run".toList).2 = [(1, true), (2, true)] := by
    rw [← stands]
    decide +kernel
  rw [lines] at run
  generalize now : (fun m : Machine => m.cycle.2)^[10] _ = m at run
  have arrived : m.running = true ∧ m.line = 4 ∧ m.session.flow.isSkipping = false := by
    rw [← now, ← stands]
    decide +kernel
  have stage : m.stage = .search := by
    rw [← now, ← stands]
    rfl
  obtain ⟨running, line, unskipped⟩ := arrived
  obtain ⟨stack, leads⟩ := nested_run reached script run running stage unskipped
  rw [line] at stack
  exact ⟨first, command, _, m, reached, run, running, congrArg Stage.phase stage, line, rfl,
    List.reverse_eq_nil_iff.1 stack, leads⟩

end Machine

end LineScript
