import LineScript.Proofs.Block.Control
import LineScript.Proofs.Machine.Cycle
/-!
# Tracking the structured reading

A machine never looks at the blocks of its script as a whole. What it has of
them is its stage, the skipping and the link stack, and these follow the
structured reading from stage to stage: where they now lead is where the lines
executed so far lead, and the stack is already the one of that line
(`Machine.Tracks`). Every step keeps this, and so does a host that does not
execute.
-/

namespace LineScript

/-! ## What commands do to the control -/

/-- The outcome of the condition of an instruction. One without a condition
has its way. -/
def Instruction.outcome (i : Instruction) (v : Sources) : Bool :=
  match i.command with
  | .branch sides | .loop sides => v.holds sides (i.operator.getD (.comparison .eq))
  | .count => v.unsigned 0 ≤ v.unsigned 1
  | _ => true

/-- The line an effect jumps to. -/
def Effect.jump? : Effect → Option Nat
  | proceed _ jump => jump
  | _ => none

namespace Machine

/-- What decides which line comes next. -/
def control (m : Machine) : Control := ⟨m.session.flow, m.session.link⟩

/-- **What a command does to the control**, unless it transfers it. -/
theorem control_perform (m : Machine) (i : Instruction) (v : Sources)
    (h : i.command.transfers = false) :
    ((m.perform i v).2.control, (m.perform i v).1.jump?) =
      m.control.after m.line (i.outcome v) (some i.command) := by
  unfold perform Instruction.outcome
  cases hc : i.command with
  | jump | call | ret =>
    rw [hc] at h
    cases h
  | branch sides =>
    dsimp only [Control.after]
    cases v.holds sides (i.operator.getD (.comparison .eq)) <;> rfl
  | loop sides =>
    dsimp only [Control.after, enterLoop]
    cases v.holds sides (i.operator.getD (.comparison .eq)) <;> rfl
  | count =>
    dsimp only [Control.after, enterLoop]
    cases decide (v.unsigned 0 ≤ v.unsigned 1) <;> rfl
  | pop =>
    dsimp only [control, Control.after, Effect.jump?]
    rw [m.session.pop_session m.store]
  | pointer | picture =>
    dsimp only
    split <;> rfl
  | gpio | sound | interruptSound =>
    dsimp only [withArray]
    split <;> rfl
  | _ => rfl

end Machine

/-! ## Scripts -/

/-- The lines of a script, as they stand in a machine of a configuration, are
properly nested blocks, no deeper than the link stack. -/
structure Block.IsScript (b : Block) (c : Config) (command : Nat → Option Command) : Prop where
  placed : b.Placed command 1
  nested : b.Nested false
  size : b.size = c.lines - 2
  depth : b.depth ≤ c.linkDepth
  /-- No line goes where blocks have no say. -/
  transfers : ∀ line k, 1 ≤ line → line ≤ b.size → command line = some k → k.transfers = false

/-- The heads of the open loops, as they are stacked. -/
def Block.stack (b : Block) (line : Nat) : List Nat := (b.openLoops 1 line).reverse

namespace Machine

variable {c : Config} {m m' : Machine} {command : Nat → Option Command} {b : Block}
variable {lines : List (Nat × Bool)}

/-- A script stands in itself, inside no loop. -/
theorem standing_of_isScript (h : b.IsScript c command) :
    b.Standing command b.stack c.linkDepth 1 (1 + b.size) 0 [] false where
  placed := h.placed
  nested := h.nested
  size := rfl
  depth := h.depth
  inside _ _ _ := (List.append_nil _).symm
  exits loop := nomatch loop

/-- The lines of a machine carry these commands. -/
def Carries (command : Nat → Option Command) (m : Machine) : Prop :=
  ∀ line < m.store.inputSlot, 1 ≤ line → m.store.command? line = command line

/-! ## Tracking the structured reading -/

/-- The line a stage leads to. -/
def ahead (m : Machine) : Nat :=
  match m.stage with
  | .advance _ jump => jump.getD (m.line + 1)
  | .awaiting _ _ | .sleeping _ => m.line + 1
  | _ => m.line

/-- An instruction that is read or carried out leads to its own line. -/
theorem ahead_of_decoded {i : Instruction} (h : m.stage.instruction? = some i) :
    m.ahead = m.line := by
  unfold ahead
  cases stage : m.stage with
  | advance | awaiting | sleeping =>
    rw [stage] at h
    cases h
  | search | enumerate | execute | terminate => rfl

theorem instruction?_firstStage (i : Instruction) : i.firstStage.instruction? = some i := by
  unfold Instruction.firstStage
  split <;> rfl

theorem instruction?_enumerate (m : Machine) (i : Instruction) (v : Sources) :
    (m.enumerate i v).stage.instruction? = some i := by
  dsimp only [Machine.enumerate, enter]
  split <;> split <;> rfl

/-- The line the next step executes and the outcome on it, if it executes
one. A line without a command is executed by the search. -/
def executing (m : Machine) : List (Nat × Bool) :=
  match m.stage with
  | .search =>
    if m.session.flow.isSkipping = false ∧ m.store.command? m.line = none then [(m.line, true)]
    else []
  | .execute i v => [(m.line, i.outcome v)]
  | _ => []

/-- The machine is on its way to where the lines executed so far lead, and has
the loops stacked that are open there. -/
structure Tracks (command : Nat → Option Command) (b : Block) (lines : List (Nat × Bool))
    (m : Machine) : Prop where
  pos : 1 ≤ m.ahead
  leads : ∃ target, Flow.Resumes command m.session.flow m.ahead target ∧
    m.session.link.entries = b.stack target ∧ b.Leads 1 1 lines target
  /-- Only a line that is not skipped is decoded. -/
  decoded : ∀ i, m.stage.instruction? = some i →
    m.session.flow.isSkipping = false ∧ command m.line = some i.command

namespace Tracks

/-- Nothing else of a machine matters. -/
theorem congr (h : Tracks command b lines m) (control : m'.control = m.control)
    (ahead : m'.ahead = m.ahead) (decoded : ∀ i, m'.stage.instruction? = some i →
      m'.session.flow.isSkipping = false ∧ command m'.line = some i.command) :
    Tracks command b lines m' := by
  have flow : m'.session.flow = m.session.flow := congrArg Control.flow control
  have link : m'.session.link = m.session.link := congrArg Control.link control
  refine ⟨ahead ▸ h.pos, ?_, decoded⟩
  rw [flow, link, ahead]
  exact h.leads

theorem untouched (h : Tracks command b lines m) (control : m'.control = m.control)
    (line : m'.line = m.line) (stage : m'.stage = m.stage) : Tracks command b lines m' := by
  have flow : m'.session.flow = m.session.flow := congrArg Control.flow control
  refine h.congr control ?_ fun i decoded => ?_
  · rw [ahead, ahead, stage, line]
  · rw [stage] at decoded
    rw [flow, line]
    exact h.decoded i decoded

/-- Unless lines are skipped, the lines executed so far lead to the line ahead. -/
theorem unskipped (h : Tracks command b lines m) (runs : m.session.flow.isSkipping = false) :
    m.session.link.entries = b.stack m.ahead ∧ b.Leads 1 1 lines m.ahead := by
  obtain ⟨target, resumes, stack, leads⟩ := h.leads
  rw [resumes.eq_of_unskipped runs]
  exact ⟨stack, leads⟩

/-- **Executing a line** leads where the structured reading goes on. -/
theorem executed (h : Tracks command b lines m) (script : b.IsScript c command) (sound : m.Sound c)
    (runs : m.session.flow.isSkipping = false) (here : m.ahead = m.line)
    (inside : m.line < m.store.inputSlot) (taken : Bool) (jump : Option Nat)
    (control : (m'.control, jump) = m.control.after m.line taken (command m.line))
    (ahead : m'.ahead = jump.getD (m.line + 1)) (free : m'.stage.instruction? = none) :
    Tracks command b (lines ++ [(m.line, taken)]) m' := by
  obtain ⟨stack, leads⟩ := h.unskipped runs
  have pos := h.pos
  rw [here] at pos stack leads
  have last : m.line < 1 + b.size := by
    have := sound.inputSlot
    have := script.size
    omega
  have next := Block.control_next (standing_of_isScript script) (k := m.control) runs
    sound.session.linkCapacity pos last stack taken
  rw [← control] at next
  refine ⟨ahead ▸ next.low, ⟨_, ?_, next.stack, Block.leads_concat taken leads⟩, fun i decoded => ?_⟩
  · rw [ahead]
    exact next.resumes
  · rw [free] at decoded
    cases decoded

/-! ## Stages -/

/-- A search decodes a line, executes one without a command, or passes over one. -/
theorem search (h : Tracks command b lines m) (script : b.IsScript c command) (sound : m.Sound c)
    (carries : m.Carries command) (inside : m.line < m.store.inputSlot) (stage : m.stage = .search) :
    Tracks command b (lines ++ m.executing) m.search := by
  have here : m.ahead = m.line := by
    rw [ahead, stage]
  have pos := h.pos
  rw [here] at pos
  have same := carries m.line inside pos
  have executing : m.executing =
      if m.session.flow.isSkipping = false ∧ m.store.command? m.line = none then [(m.line, true)]
      else [] := by
    rw [Machine.executing, stage]
  rw [search_eq, if_neg (by omega), executing]
  cases runs : m.session.flow.isSkipping with
  | true =>
    -- one line less to skip, and the same target
    have skipped : m.instruction? = none := instruction?_eq_none_iff.2 (.inl runs)
    have past : m.flowPast = m.session.flow.past (command m.line) := by
      rw [flowPast, if_pos runs, same]
    rw [skipped, if_neg (fun both => nomatch both.1), List.append_nil]
    obtain ⟨target, resumes, stack, leads⟩ := h.leads
    rw [here] at resumes
    refine ⟨Nat.succ_pos _, ⟨target, ?_, stack, leads⟩, fun i decoded => nomatch decoded⟩
    change Flow.Resumes command m.flowPast (m.line + 1) target
    rw [past]
    exact resumes.past_of_skipping runs
  | false =>
    cases kind : m.store.command? m.line with
    | none =>
      have bare : m.instruction? = none := instruction?_eq_none_iff.2 (.inr kind)
      have past : m.flowPast = m.session.flow := by
        rw [flowPast, runs]
        rfl
      rw [bare, if_pos ⟨rfl, rfl⟩]
      refine h.executed script sound runs here inside true none ?_ rfl rfl
      rw [← same, kind, past]
      rfl
    | some k =>
      -- a command is executed later; until then the line stays ahead
      have found : m.instruction? = some (m.settled.decode k (m.store.wordsOf m.line).2) := by
        rw [instruction?, runs, kind]
        rfl
      rw [found, if_neg (fun both => nomatch both.2), List.append_nil]
      have first := instruction?_firstStage (m.settled.decode k (m.store.wordsOf m.line).2)
      refine h.congr rfl ((ahead_of_decoded first).trans here.symm) fun i decoded => ⟨runs, ?_⟩
      obtain rfl := Option.some.inj (first.symm.trans decoded)
      exact same.symm.trans kind

/-- Reading operands goes nowhere. -/
theorem enumerate (h : Tracks command b lines m) {i : Instruction} {v : Sources}
    (stage : m.stage = .enumerate i v) : Tracks command b lines (m.enumerate i v) := by
  have before : m.stage.instruction? = some i := by
    rw [stage]
    rfl
  have next := m.instruction?_enumerate i v
  obtain ⟨runs, kind⟩ := h.decoded i before
  refine h.congr rfl ((ahead_of_decoded next).trans (ahead_of_decoded before).symm)
    fun j decoded => ⟨runs, ?_⟩
  obtain rfl := Option.some.inj (next.symm.trans decoded)
  exact kind

/-- A command leads on, waits, or ends the run. -/
theorem executeCommand (h : Tracks command b lines m) (script : b.IsScript c command)
    (sound : m.Sound c) (inside : m.line < m.store.inputSlot) {i : Instruction} {v : Sources}
    (stage : m.stage = .execute i v) (going : (m.executeCommand i v).stage.phase ≠ .terminate) :
    Tracks command b (lines ++ [(m.line, i.outcome v)]) (m.executeCommand i v) := by
  have before : m.stage.instruction? = some i := by
    rw [stage]
    rfl
  have here := ahead_of_decoded before
  have pos := h.pos
  have bound := sound.inputSlot
  have size := script.size
  rw [here] at pos
  obtain ⟨runs, kind⟩ := h.decoded i before
  have stays := script.transfers m.line i.command pos (by omega) kind
  have control := m.control_perform i v stays
  have frame := (m.framed_perform i v).line
  rw [← kind] at control
  unfold Machine.executeCommand at going ⊢
  dsimp only at going ⊢
  generalize m.perform i v = result at control frame going ⊢
  obtain ⟨effect, m'⟩ := result
  -- an instruction that waits goes on at the next line, so it jumps nowhere
  cases effect with
  | proceed write jump =>
    refine h.executed script sound runs here inside _ jump control ?_ rfl
    exact congrArg (fun line => jump.getD (line + 1)) frame
  | ask prompt =>
    refine h.executed script sound runs here inside _ none control ?_ rfl
    exact congrArg (· + 1) frame
  | pause deadline =>
    refine h.executed script sound runs here inside _ none control ?_ rfl
    exact congrArg (· + 1) frame
  | halt => exact absurd rfl going

/-- Going on at the line ahead. -/
theorem advance (h : Tracks command b lines m) (write : Option (Nat × Text)) (jump : Option Nat)
    (here : m.ahead = jump.getD (m.line + 1))
    (going : (m.advance write jump).stage.phase ≠ .terminate) :
    Tracks command b lines (m.advance write jump) := by
  have search : (m.advance write jump).stage = .search := by
    unfold Machine.advance at going ⊢
    dsimp only at going ⊢
    split
    · next past =>
      rw [if_pos past] at going
      exact absurd rfl going
    · rfl
  refine h.congr rfl ?_ fun i decoded => ?_
  · rw [here, ahead, search]
    rfl
  · rw [search] at decoded
    cases decoded

/-- Going on when it is time, and waiting until then. -/
theorem wake (h : Tracks command b lines m) {deadline : Nat} (stage : m.stage = .sleeping deadline)
    (going : (m.wake deadline).stage.phase ≠ .terminate) :
    Tracks command b lines (m.wake deadline) := by
  have here : m.ahead = m.line + 1 := by
    rw [ahead, stage]
  have ticked : ∀ board, Tracks command b lines { m with board } :=
    fun board => h.untouched rfl rfl rfl
  unfold Machine.wake at going ⊢
  dsimp only at going ⊢
  split
  · exact ticked _
  · next past =>
    rw [if_neg past] at going
    exact (ticked _).advance none none here going

/-- **A step keeps track** until the run ends. -/
theorem step (h : Tracks command b lines m) (script : b.IsScript c command) (sound : m.Sound c)
    (carries : m.Carries command) (before : m.stage.phase ≠ .terminate)
    (going : m.step.stage.phase ≠ .terminate) :
    Tracks command b (lines ++ m.executing) m.step := by
  have inside := sound.inside before
  unfold Machine.step at going ⊢
  unfold executing
  cases stage : m.stage with
  | search =>
    have next := h.search script sound carries inside stage
    unfold executing at next
    rw [stage] at next
    exact next
  | enumerate i v =>
    rw [List.append_nil]
    exact h.enumerate stage
  | execute i v =>
    rw [stage] at going
    exact h.executeCommand script sound inside stage going
  | advance write jump =>
    rw [List.append_nil]
    rw [stage] at going
    exact h.advance write jump (by rw [ahead, stage]) going
  | awaiting prompt destination =>
    rw [List.append_nil]
    exact h
  | sleeping deadline =>
    rw [List.append_nil]
    rw [stage] at going
    exact h.wake stage going
  | terminate =>
    rw [stage] at before
    exact absurd rfl before

/-- A host that does not execute does not lead astray: it answers, or leaves
the stage alone. -/
theorem call (h : Tracks command b lines m) (running : m.running = true) (k : HostCall)
    (other : ∀ n, k ≠ .execute n) : Tracks command b lines (m.call k).2 := by
  cases k with
  | execute n => exact absurd rfl (other n)
  | interrupt | service | change => exact h.untouched rfl rfl rfl
  | receive t =>
    unfold Machine.call Machine.receive
    simp only [running, if_true]
    split
    · exact h.untouched rfl rfl rfl
    · split
      · next prompt destination stage =>
        refine h.congr rfl ?_ fun i decoded => nomatch decoded
        rw [ahead, ahead, stage]
        rfl
      · exact h

end Tracks

end Machine

end LineScript
