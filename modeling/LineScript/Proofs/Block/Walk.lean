import LineScript.Proofs.Block.Track
import LineScript.Proofs.Machine.Lines
/-!
# Walks

A walk is a part of a run that stays on some lines and waits for nothing, told
by the machines at its ends and the lines executed between them. Longer walks
are put together from those over a single line: an instruction that neither
waits nor ends the run (`walk_of_instruction`), and a line that is skipped or
carries no command (`walk_of_none`). Where a line leads is told by what it does
to the control (`control_carryOut`).
-/

namespace LineScript

namespace Machine

variable {c : Config} {m m' m'' : Machine} {i : Instruction} {first last : Nat}
variable {lines lines' : List (Nat × Bool)}

/-- From one machine to another by steps on the lines from `first` to `last`,
none of which waits, with the lines that are executed. -/
inductive Walk (first last : Nat) : Machine → List (Nat × Bool) → Machine → Prop where
  | stay (m : Machine) : Walk first last m [] m
  | go {m m' : Machine} {lines : List (Nat × Bool)} : first ≤ m.line → m.line ≤ last →
      m.running = true → m.stage.isSuspended = false → Walk first last m.step lines m' →
      Walk first last m (m.executing ++ lines) m'

namespace Walk

theorem single (ge : first ≤ m.line) (le : m.line ≤ last) (running : m.running = true)
    (free : m.stage.isSuspended = false) : Walk first last m m.executing m.step := by
  have walk := Walk.go ge le running free (.stay m.step)
  rwa [List.append_nil] at walk

/-- One walk after another. -/
theorem trans (h : Walk first last m lines m') (h' : Walk first last m' lines' m'') :
    Walk first last m (lines ++ lines') m'' := by
  induction h with
  | stay => exact h'
  | go ge le running free _ ih =>
    rw [List.append_assoc]
    exact .go ge le running free (ih h')

/-- A walk on some lines is one on more of them. -/
theorem widen (h : Walk first last m lines m') {first' last' : Nat} (ge : first' ≤ first)
    (le : last ≤ last') : Walk first' last' m lines m' := by
  induction h with
  | stay => exact .stay _
  | go low high running free _ ih =>
    exact .go (Nat.le_trans ge low) (Nat.le_trans high le) running free ih

/-- Steps that execute nothing. -/
theorem silent {n : Nat} (steps : ∀ k < n, first ≤ (step^[k] m).line ∧ (step^[k] m).line ≤ last ∧
    (step^[k] m).running = true ∧ (step^[k] m).stage.isSuspended = false ∧
    (step^[k] m).executing = []) : Walk first last m [] (step^[n] m) := by
  induction n with
  | zero => exact .stay m
  | succ n ih =>
    obtain ⟨ge, le, running, free, none⟩ := steps n (Nat.lt_succ_self n)
    have latest := single ge le running free
    rw [none] at latest
    rw [Function.iterate_succ_apply']
    exact (ih fun k lt => steps k (Nat.lt_succ_of_lt lt)).trans latest

/-! ## What a walk keeps -/

theorem sound (h : Walk first last m lines m') (sound : m.Sound c) : m'.Sound c := by
  induction h with
  | stay => exact sound
  | go _ _ running _ _ ih => exact ih (sound.step running)

theorem evolves (h : Walk first last m lines m') : m.store.Evolves m'.store := by
  induction h with
  | stay => exact .refl _
  | @go m _ _ _ _ _ _ _ ih => exact m.evolves_step.trans ih

/-! ## Walks and calls -/

/-- A walk is so many steps. -/
theorem exists_iterate (h : Walk first last m lines m') : ∃ n, step^[n] m = m' ∧
    ∀ k < n, first ≤ (step^[k] m).line ∧ (step^[k] m).line ≤ last ∧
      (step^[k] m).running = true ∧ (step^[k] m).stage.isSuspended = false := by
  induction h with
  | stay => exact ⟨0, rfl, fun k lt => absurd lt (Nat.not_lt_zero k)⟩
  | go ge le running free _ ih =>
    obtain ⟨n, reaches, on⟩ := ih
    refine ⟨n + 1, reaches, fun k lt => ?_⟩
    cases k with
    | zero => exact ⟨ge, le, running, free⟩
    | succ k => exact on k (Nat.lt_of_succ_lt_succ lt)

/-- **A host that goes on executing** gets to its end. -/
theorem exists_executes (h : Walk first last m lines m') (quiet : m.interrupted = false) :
    ∃ n, (m.calls (List.replicate n (.execute 1))).unshown = m'.unshown := by
  obtain ⟨n, reaches, on⟩ := h.exists_iterate
  rw [← reaches]
  exact Machine.exists_executes quiet fun k lt => (on k lt).2.2

end Walk

/-! ## Over one line -/

/-- The outcome does not depend on operands that are not read. -/
theorem outcome_of_reads_eq_zero (h : i.reads = 0) (s : Store) :
    i.outcome [] = i.outcome (i.values s) := by
  unfold Instruction.reads at h
  split at h
  · next domain =>
    unfold Instruction.outcome
    cases command : i.command with
    | branch sides | loop sides =>
      rw [command] at domain
      cases sides <;> cases domain
    | count =>
      rw [command] at domain
      cases domain
    | _ => rfl
  · rw [Instruction.values, List.length_eq_zero_iff.1 h]
    rfl

/-- A line with an instruction is not executed by its search. -/
theorem executing_of_instruction (stage : m.stage = .search) (h : m.instruction? = some i) :
    m.executing = [] := by
  have none : ¬ (m.session.flow.isSkipping = false ∧ m.store.command? m.line = none) := by
    intro bare
    rw [instruction?_eq_none_iff.2 (.inr bare.2)] at h
    cases h
  unfold executing
  rw [stage]
  exact if_neg none

/-- **To the command of a line**, with the values of its operands or, if none
are read, something as good. -/
theorem walk_reads (inside : m.line < m.store.inputSlot) (stage : m.stage = .search)
    (running : m.running = true) (h : m.instruction? = some i) :
    ∃ v, Walk m.line m.line m [] (m.settled.enter (.execute i v)) ∧
      m.settled.perform i v = m.settled.perform i (i.values m.settled.store) ∧
      i.outcome v = i.outcome (i.values m.settled.store) := by
  have found : m.step = m.settled.enter i.firstStage := by
    rw [step_of_search stage, search_eq, if_neg (Nat.not_le.2 inside), h]
  have search : Walk m.line m.line m [] (m.settled.enter i.firstStage) := by
    have walk := Walk.single (m := m) (Nat.le_refl _) (Nat.le_refl _) running (by rw [stage]; rfl)
    rwa [executing_of_instruction stage h, found] at walk
  rcases Nat.eq_zero_or_pos i.reads with none | some
  · rw [firstStage_of_reads_eq_zero none] at search
    exact ⟨[], search, perform_of_reads_eq_zero none, outcome_of_reads_eq_zero none _⟩
  · refine ⟨i.values m.settled.store, ?_, rfl, rfl⟩
    rw [firstStage_of_reads some] at search
    have reading : Walk m.line m.line (m.settled.enter (.enumerate i [])) []
        (step^[i.operands.length] (m.settled.enter (.enumerate i []))) := by
      refine Walk.silent fun k lt => ?_
      rw [iterate_step_enumerate lt]
      exact ⟨Nat.le_refl _, Nat.le_refl _, running, rfl, rfl⟩
    rw [iterate_step_execute (Instruction.reads_eq_length some ▸ some)] at reading
    exact search.trans reading

/-- **A walk over an instruction** that neither waits nor ends the run does
what the instruction does at once. -/
theorem walk_of_instruction (inside : m.line < m.store.inputSlot) (stage : m.stage = .search)
    (running : m.running = true) (h : m.instruction? = some i) (waits : i.command.suspends = false)
    (halts : i.command.halts = false) :
    ∃ m', m.settled.carryOut i = some m' ∧
      Walk m.line m.line m [(m.line, i.outcome (i.values m.settled.store))] m' := by
  obtain ⟨v, reading, same, outcome⟩ := walk_reads inside stage running h
  have frame := m.settled.framed_perform i (i.values m.settled.store)
  have ends := m.settled.halts_perform i (i.values m.settled.store)
  have rests := m.settled.suspends_perform i (i.values m.settled.store)
  refine ⟨_, carryOut_eq waits, ?_⟩
  have performing := Walk.single (m := m.settled.enter (.execute i v)) (Nat.le_refl _)
    (Nat.le_refl _) running rfl
  rw [step_execute, same] at performing
  rw [waits] at rests
  rw [halts] at ends
  generalize m.settled.perform i (i.values m.settled.store) = result at frame ends rests performing ⊢
  obtain ⟨effect, m'⟩ := result
  cases effect with
  | ask | pause => cases rests
  | halt => cases ends
  | proceed write jump =>
    have here : (m'.enter (i.stageAfter (.proceed write jump))).line = m.line := frame.line
    have going := Walk.single (m := m'.enter (i.stageAfter (.proceed write jump)))
      (Nat.le_of_eq here.symm) (Nat.le_of_eq here) (frame.running.trans running) rfl
    have walk := (reading.trans performing).trans going
    change Walk m.line m.line m [(m.line, i.outcome v)] _ at walk
    rwa [outcome] at walk

/-- **A walk over a line that is skipped or carries no command.** -/
theorem walk_of_none (inside : m.line < m.store.inputSlot) (stage : m.stage = .search)
    (running : m.running = true) (h : m.instruction? = none) :
    Walk m.line m.line m (if m.session.flow.isSkipping then [] else [(m.line, true)])
      m.passLine := by
  have search := Walk.single (m := m) (Nat.le_refl _) (Nat.le_refl _) running (by rw [stage]; rfl)
  have found : m.step = { m.settled with session := { m.session with flow := m.flowPast } }.enter
      (.advance none none) := by
    rw [step_of_search stage, search_eq, if_neg (Nat.not_le.2 inside), h]
  have executing : m.executing = if m.session.flow.isSkipping then [] else [(m.line, true)] := by
    unfold Machine.executing
    rw [stage]
    rcases instruction?_eq_none_iff.1 h with skips | none
    · simp [skips]
    · cases m.session.flow.isSkipping <;> simp [none]
  rw [executing, found] at search
  have going := Walk.single (m := { m.settled with
    session := { m.session with flow := m.flowPast } }.enter (.advance none none))
    (Nat.le_refl m.line) (Nat.le_refl m.line) running rfl
  rw [step_passLine] at going
  have walk := search.trans going
  rwa [show Machine.executing _ = [] from rfl, List.append_nil] at walk

/-! ## Where a line leads -/

/-- **Going on from an instruction**: what it does to the control tells the
line it leads to. -/
theorem control_carryOut (stays : i.command.transfers = false) (halts : i.command.halts = false)
    (h : m.carryOut i = some m') :
    ∃ jump, (m'.control, jump) =
        m.control.after m.line (i.outcome (i.values m.store)) (some i.command) ∧
      m'.line = jump.getD (m.line + 1) ∧ m'.running = m.running ∧
      m'.stage = if m.store.inputSlot ≤ m'.line then .terminate else .search := by
  have control := m.control_perform i (i.values m.store) stays
  have frame := m.framed_perform i (i.values m.store)
  have ends := m.halts_perform i (i.values m.store)
  rw [halts] at ends
  unfold carryOut at h
  generalize m.perform i (i.values m.store) = result at control frame ends h
  obtain ⟨effect, after⟩ := result
  cases effect with
  | ask | pause => cases h
  | halt => cases ends
  | proceed write jump =>
    cases h
    have slot : (after.written i write).inputSlot = m.store.inputSlot := by
      rw [← frame.store.inputSlot]
      unfold written
      split
      · exact (Store.evolves_writeIfPresent _ _ _).inputSlot
      · rfl
    refine ⟨jump, control, rfl, frame.running, ?_⟩
    simp only [goOn, slot]

end Machine

end LineScript
