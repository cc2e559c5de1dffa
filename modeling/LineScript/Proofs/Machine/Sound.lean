import LineScript.Proofs.Machine.Frame
/-!
# Sound machines

What holds of a machine between any two calls of its host. A stage is sound
if what it holds of an instruction is what its phase needs; a machine is sound
if its stage and session are, if it stands on a line of the script, and if one
that does not run is back at the beginning.

Every stage, every editor command and every call keeps a machine sound, so
whatever a host has done, the machine is (`Reachable.sound`).
-/

namespace LineScript

/-! ## What a stage holds -/

namespace Stage

/-- The instruction a stage works on. -/
def instruction? : Stage → Option Instruction
  | enumerate i _ | execute i _ => some i
  | _ => none

/-- The operands that were read. -/
def sources : Stage → Sources
  | enumerate _ v | execute _ v => v
  | _ => []

/-- Whether a line or a time is awaited. -/
def isSuspended : Stage → Bool
  | awaiting _ _ | sleeping _ => true
  | _ => false

variable {limit : Nat} {i : Instruction} {v : Sources}

/-- A stage holds what its phase needs, where an instruction may keep `limit`
operands. -/
structure Sound (limit : Nat) (s : Stage) : Prop where
  /-- Operands are read only for a command that uses them, and one is left to read. -/
  reading : s.phase = .enumerate → ∃ i, s.instruction? = some i ∧
    i.command.signature.domain ≠ .none ∧ s.sources.length < i.operands.length
  /-- A command that uses its operands has all of them. -/
  executing : s.phase = .execute → ∃ i, s.instruction? = some i ∧
    (i.command.signature.domain ≠ .none → s.sources.length = i.operands.length)
  /-- No more operands are kept than the command takes and the machine allows. -/
  kept : ∀ i, s.instruction? = some i → i.operands.length ≤ i.command.signature.keeps limit

theorem sound_search : Sound limit search := by
  constructor <;> simp [phase, instruction?]

theorem sound_enumerate (domain : i.command.signature.domain ≠ .none)
    (left : v.length < i.operands.length)
    (kept : i.operands.length ≤ i.command.signature.keeps limit) :
    Sound limit (enumerate i v) := by
  constructor <;> simp_all [phase, instruction?, sources]

theorem sound_execute (all : i.command.signature.domain ≠ .none → v.length = i.operands.length)
    (kept : i.operands.length ≤ i.command.signature.keeps limit) :
    Sound limit (execute i v) := by
  constructor <;> simp_all [phase, instruction?, sources]

theorem sound_advance (write : Option (Nat × Text)) (jump : Option Nat) :
    Sound limit (advance write jump) := by
  constructor <;> simp [phase, instruction?]

theorem sound_awaiting (prompt : Text) (destination : Option Nat) :
    Sound limit (awaiting prompt destination) := by
  constructor <;> simp [phase, instruction?]

theorem sound_sleeping (deadline : Nat) : Sound limit (sleeping deadline) := by
  constructor <;> simp [phase, instruction?]

theorem sound_terminate : Sound limit terminate := by
  constructor <;> simp [phase, instruction?]

end Stage

/-- No more arguments are kept than there may be. -/
theorem Argument.length_parseAll_le (t : Text) (withOperator : Bool) (max : Nat) :
    (parseAll t withOperator max).1.length ≤ max := by
  simp only [parseAll, List.length_map, List.length_take]
  omega

/-- Operands are read for every domain but the one of commands that only point. -/
theorem Signature.readsOperands_eq_false (s : Signature) :
    s.readsOperands = false ↔ s.domain = .none := by
  simp [readsOperands]

/-- **A decoded instruction enters a sound stage.** -/
theorem Instruction.sound_firstStage {i : Instruction} {limit : Nat}
    (kept : i.operands.length ≤ i.command.signature.keeps limit) :
    i.firstStage.Sound limit := by
  unfold firstStage
  split
  · next direct =>
    refine Stage.sound_execute (fun domain => ?_) kept
    rw [Bool.or_eq_true, List.isEmpty_iff, Bool.not_eq_true'] at direct
    rcases direct with none | unread
    · simp [none]
    · exact absurd ((Signature.readsOperands_eq_false _).1 unread) domain
  · next reads =>
    rw [Bool.or_eq_true, List.isEmpty_iff, Bool.not_eq_true', not_or] at reads
    refine Stage.sound_enumerate (fun domain => ?_) (List.length_pos_iff.2 reads.1) kept
    exact reads.2 ((Signature.readsOperands_eq_false _).2 domain)

namespace Machine

variable {c : Config} {m : Machine}

/-! ## Sound machines -/

/-- What holds of a machine of a configuration between any two calls. -/
structure Sound (c : Config) (m : Machine) : Prop where
  config : m.config = c
  valid : c.Valid
  size : m.store.size = c.lines
  session : m.session.Sound c
  stage : m.stage.Sound c.args
  /-- Only what runs waits. -/
  suspended : m.stage.isSuspended = true → m.running = true
  /-- An instruction stands before the input line. -/
  inside : m.stage.phase ≠ .terminate → m.line < m.store.inputSlot
  cursor_pos : 1 ≤ m.cursor
  cursor_le : m.cursor ≤ c.lines - 2
  /-- A machine that does not run is back at the beginning. -/
  stopped : m.running = false → m.stage = .search ∧ m.line = 1

namespace Sound

theorem inputSlot (h : m.Sound c) : m.store.inputSlot = c.lines - 1 := by
  rw [Store.inputSlot, h.size]

/-- Line 1 always stands before the input line. -/
theorem one_lt_inputSlot (h : m.Sound c) : 1 < m.store.inputSlot := by
  have := h.inputSlot
  have := h.valid.lines_ge
  omega

/-- The lines may be changed by operations of the store. -/
theorem withStore (h : m.Sound c) {store : Store} (evolves : m.store.Evolves store) :
    Sound c { m with store } :=
  { h with
    size := evolves.shape.size.trans h.size
    inside := fun phase => evolves.inputSlot ▸ h.inside phase }

theorem withSession (h : m.Sound c) {session : Session} (sound : session.Sound c) :
    Sound c { m with session } :=
  { h with session := sound }

/-- Nothing here depends on the board, the output or a pending listing. -/
theorem withBoard (h : m.Sound c) (board : Board) (output : Text) (listing : Option Listing)
    (interrupted : Bool) : Sound c { m with board, output, listing, interrupted } :=
  { h with }

/-- **A machine that runs may enter any sound stage** of its line. -/
theorem enter (h : m.Sound c) (running : m.running = true) {stage : Stage}
    (sound : stage.Sound c.args) (inside : stage.phase ≠ .terminate → m.line < m.store.inputSlot) :
    Sound c (m.enter stage) :=
  { h with
    stage := sound
    suspended := fun _ => running
    inside := inside
    stopped := fun stopped => absurd (running.symm.trans stopped) (by decide) }

/-- What commands leave alone keeps a machine sound. -/
theorem framed (h : m.Sound c) {m' : Machine} (frame : m.Framed m') : Sound c m' where
  config := frame.config.trans h.config
  valid := h.valid
  size := frame.store.shape.size.trans h.size
  session := frame.session c h.session
  stage := frame.stage ▸ h.stage
  suspended := by rw [frame.stage, frame.running]; exact h.suspended
  inside := by rw [frame.stage, frame.line, frame.store.inputSlot]; exact h.inside
  cursor_pos := frame.cursor ▸ h.cursor_pos
  cursor_le := frame.cursor ▸ h.cursor_le
  stopped := by rw [frame.running, frame.stage, frame.line]; exact h.stopped

/-! ## Stages -/

theorem search (h : m.Sound c) (running : m.running = true) : Sound c m.search := by
  unfold Machine.search
  split
  · exact h.enter running Stage.sound_terminate (fun phase => absurd rfl phase)
  · next inside =>
    have settled := h.withStore (m.store.evolves_terminateLabel m.line)
    have before : m.line < (m.store.terminateLabel m.line).inputSlot := by
      rw [(m.store.evolves_terminateLabel m.line).inputSlot]
      omega
    dsimp only
    split
    · next skipping =>
      refine enter (settled.withSession (Session.Sound.withFlow h.session ?_)) running
        (Stage.sound_advance _ _) (fun _ => before)
      split
      · exact Flow.settled_pass skipping
      · exact h.session.settled
    · split
      · refine settled.enter running (Instruction.sound_firstStage ?_) (fun _ => before)
        simp only [decode, List.length_map]
        rw [h.config]
        exact Argument.length_parseAll_le _ _ _
      · exact settled.enter running (Stage.sound_advance _ _) (fun _ => before)

theorem enumerate (h : m.Sound c) (running : m.running = true) {i : Instruction} {v : Sources}
    (stage : m.stage = .enumerate i v) : Sound c (m.enumerate i v) := by
  have sound := h.stage
  rw [stage] at sound
  obtain ⟨_, ⟨⟩, domain, left⟩ := sound.reading rfl
  have kept := sound.kept i rfl
  have before : m.line < m.store.inputSlot := h.inside (by simp [stage, Stage.phase])
  simp only [Stage.sources] at left
  unfold Machine.enumerate
  rw [List.getElem?_eq_getElem left]
  dsimp only
  split
  · next all =>
    refine h.enter running (Stage.sound_execute (fun _ => ?_) kept) (fun _ => before)
    simp only [List.length_append, List.length_singleton] at all ⊢
    omega
  · next more =>
    exact h.enter running (Stage.sound_enumerate domain (by omega) kept) (fun _ => before)

theorem executeCommand (h : m.Sound c) (running : m.running = true) {i : Instruction} {v : Sources}
    (stage : m.stage = .execute i v) : Sound c (m.executeCommand i v) := by
  have before : m.line < m.store.inputSlot := h.inside (by simp [stage, Stage.phase])
  have frame := m.framed_perform i v
  have sound := h.framed frame
  have runs : (m.perform i v).2.running = true := frame.running.trans running
  have inside : (m.perform i v).2.line < (m.perform i v).2.store.inputSlot := by
    rw [frame.line, frame.store.inputSlot]
    exact before
  unfold Machine.executeCommand
  dsimp only
  split
  · exact sound.enter runs (Stage.sound_advance _ _) (fun _ => inside)
  · exact sound.enter runs (Stage.sound_awaiting _ _) (fun _ => inside)
  · exact sound.enter runs (Stage.sound_sleeping _) (fun _ => inside)
  · exact sound.enter runs Stage.sound_terminate (fun phase => absurd rfl phase)

theorem advance (h : m.Sound c) (running : m.running = true) (write : Option (Nat × Text))
    (jump : Option Nat) : Sound c (m.advance write jump) := by
  have written : m.store.Evolves (m.advance write jump).store := by
    unfold Machine.advance
    dsimp only
    split
    · exact Store.evolves_writeIfPresent _ _ _
    · exact .refl _
  refine { h.withStore written with stage := ?_, suspended := ?_, inside := ?_, stopped := ?_ }
  · unfold Machine.advance
    dsimp only
    split
    · exact Stage.sound_terminate
    · exact Stage.sound_search
  · exact fun _ => running
  · rw [written.inputSlot]
    unfold Machine.advance
    dsimp only
    split
    · exact fun phase => absurd rfl phase
    · next before => exact fun _ => by omega
  · exact fun stopped => absurd (running.symm.trans stopped) (by decide)

theorem wake (h : m.Sound c) (running : m.running = true) (deadline : Nat) :
    Sound c (m.wake deadline) := by
  have read := h.withBoard { m.board with clock := m.board.clock.micros.2 } m.output m.listing
    m.interrupted
  unfold Machine.wake
  dsimp only
  split
  · exact read.withBoard _ _ _ _
  · exact read.advance running none none

theorem terminate (h : m.Sound c) : Sound c m.terminate :=
  { h with
    session := h.session.reset m.board.heap
    stage := Stage.sound_search
    suspended := fun suspended => nomatch suspended
    inside := fun _ => h.one_lt_inputSlot
    stopped := fun _ => ⟨rfl, rfl⟩ }

/-- **Each stage leaves a running machine sound.** -/
theorem step (h : m.Sound c) (running : m.running = true) : Sound c m.step := by
  unfold Machine.step
  split
  · exact h.search running
  · next stage => exact h.enumerate running stage
  · next stage => exact h.executeCommand running stage
  · exact h.advance running _ _
  · exact h
  · exact h.wake running _
  · exact h.terminate

/-! ## Cycles -/

theorem obey (h : m.Sound c) : Sound c m.obey := by
  unfold Machine.obey
  split
  · split
    · next running =>
      exact (h.withBoard _ m.output m.listing false).enter running Stage.sound_terminate
        (fun phase => absurd rfl phase)
    · exact h.withBoard _ _ _ _
  · exact h

theorem cycle (h : m.Sound c) : Sound c m.cycle.2 := by
  unfold Machine.cycle
  split
  · exact h.withBoard _ _ _ _
  · split
    · exact h.withBoard _ _ _ _
    · have obeyed := h.obey
      dsimp only
      split
      · exact obeyed
      · next runs =>
        split
        · exact obeyed
        · exact obeyed.step (by simpa using runs)

theorem execute (h : m.Sound c) (cycles : Nat) : Sound c (m.execute cycles).2 := by
  induction cycles generalizing m with
  | zero => exact h
  | succ cycles ih =>
    have next := h.cycle
    unfold Machine.execute
    split
    · next told => rwa [told] at next
    · next silent => exact ih (by rwa [silent] at next)

/-! ## Editing -/

theorem lastLine (h : m.Sound c) : m.lastLine = c.lines - 2 := by
  rw [Machine.lastLine, h.inputSlot]
  omega

theorem run (h : m.Sound c) : Sound c m.run := by
  have reset := h.session.reset m.board.heap
  have scanned := LabelTable.evolves_rebuild (m.session.reset m.board.heap).1.labels m.store 1
  exact { h.withStore scanned with
    session := reset.rebuild m.store 1
    stage := Stage.sound_search
    suspended := fun suspended => nomatch suspended
    inside := fun _ => (h.withStore scanned).one_lt_inputSlot
    stopped := fun stopped => nomatch stopped }

theorem clearAll (h : m.Sound c) : Sound c m.clearAll :=
  { h.withStore m.store.evolves_clear with
    stage := Stage.sound_terminate
    suspended := fun _ => rfl
    inside := fun phase => absurd rfl phase
    cursor_pos := Nat.le_refl 1
    cursor_le := by
      have := h.valid.lines_ge
      change 1 ≤ c.lines - 2
      omega
    stopped := fun stopped => nomatch stopped }

theorem edited (h : m.Sound c) (change : Store.Change) :
    Sound c (m.edited (m.store.apply change)) := h.withStore (.apply m.store change)

theorem withCursor (h : m.Sound c) {cursor : Nat} (pos : 1 ≤ cursor) (le : cursor ≤ c.lines - 2) :
    Sound c { m with cursor } :=
  { h with cursor_pos := pos, cursor_le := le }

theorem moveCursor (h : m.Sound c) (number : Option Nat) : Sound c (m.moveCursor number) := by
  unfold Machine.moveCursor
  split
  · split
    · next range => exact h.withCursor range.1 (h.lastLine ▸ range.2)
    · exact h
  · exact h

theorem edit (h : m.Sound c) (e : Edit) : Sound c (m.edit e) := by
  cases e with
  | run => exact h.run
  | clear => exact h.clearAll
  | set number => exact h.moveCursor _
  | insert => exact h.edited (.insert m.cursor m.lastLine)
  | delete => exact h.edited (.remove m.cursor m.lastLine)
  | list => exact h.withBoard _ _ _ _
  | write t =>
    have written := h.edited (.write m.cursor t)
    have last := h.lastLine
    have := h.valid.lines_ge
    exact written.withCursor (by omega) (by omega)

theorem receive (h : m.Sound c) (t : Text) : Sound c (m.receive t).2 := by
  unfold Machine.receive
  split
  · exact h.withBoard _ _ _ _
  · have stored := h.withStore (m.store.evolves_writeIfPresent m.store.inputSlot t)
    dsimp only
    split
    · next running =>
      split
      · next stage =>
        refine stored.enter running (Stage.sound_advance _ _) (fun _ => ?_)
        exact stored.inside (by simp [stage, Stage.phase])
      · exact h
    · exact stored.edit _

/-- **Each call of the host leaves a machine sound.** -/
theorem call (h : m.Sound c) (k : HostCall) : Sound c (m.call k).2 := by
  cases k with
  | receive t => exact h.receive t
  | execute cycles => exact h.execute cycles
  | interrupt => exact h.withBoard _ _ _ _
  | service => exact h.withBoard _ _ _ _
  | change change => exact h.withStore (.apply _ _)

end Sound

/-! ## Every reachable machine -/

/-- The machines of a configuration that calls of a host lead to. -/
inductive Reachable (c : Config) : Machine → Prop where
  | new {board : Board} {g : Generator} {m : Machine} :
      Machine.new c board g = .ok m → Reachable c m
  | call {m : Machine} (k : HostCall) : Reachable c m → Reachable c (m.call k).2

/-- The machine after some calls. -/
def calls (m : Machine) (ks : List HostCall) : Machine := ks.foldl (fun m k => (m.call k).2) m

theorem Reachable.calls (h : Reachable c m) (ks : List HostCall) : Reachable c (m.calls ks) := by
  induction ks generalizing m with
  | nil => exact h
  | cons k rest ih => exact ih (h.call k)

/-- A new machine has a configuration that passes, and is sound under it. -/
theorem sound_new {board : Board} {g : Generator} (h : Machine.new c board g = .ok m) :
    m.Sound c := by
  simp only [Machine.new, Config.validate] at h
  split at h
  · cases h
  · next passed =>
    cases h
    have valid : c.Valid := Config.badDimension?_eq_none_iff.1 passed
    have lines := valid.lines_ge
    have row := valid.row_ge
    have size : (Store.new c.lines c.row).size = c.lines := by
      simp only [Store.new, Store.size, if_neg (by omega : ¬ c.row = 0), Array.size_replicate]
    exact {
      config := rfl
      valid
      size
      session := Session.sound_new (by simp only [Config.scratchFloor]; omega)
      stage := Stage.sound_search
      suspended := fun suspended => nomatch suspended
      inside := fun _ => by simp only [Store.inputSlot, size]; omega
      cursor_pos := Nat.le_refl 1
      cursor_le := by simp only; omega
      stopped := fun _ => ⟨rfl, rfl⟩ }

/-- A machine is sound whatever its host did. -/
theorem Reachable.sound (h : Reachable c m) : m.Sound c := by
  induction h with
  | new made => exact sound_new made
  | call k _ ih => exact ih.call k

end Machine

end LineScript
