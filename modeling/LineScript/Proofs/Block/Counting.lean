import LineScript.Proofs.Block.CountingLoop
import LineScript.Proofs.Machine.Results
/-!
# Counting

The counter of a loop is a line. Each round reads it as a number, and the end
of the round writes it back as text, one higher; the head is stacked when a
round begins and taken off when it ends, and the lines are skipped once the
counter is past the limit. Together this runs the lines of the loop once for
each number from the counter up to the limit (`counting_loop`).
-/

namespace LineScript

/-! ## The commands of a loop -/

namespace Machine

variable {m m' : Machine} {i : Instruction}

/-- A plain line has no condition. -/
theorem outcome_of_isPlain (h : i.command.isPlain = true) (v : Sources) : i.outcome v = true := by
  unfold Instruction.outcome
  cases command : i.command with
  | branch | loop | count =>
    rw [command] at h
    cases h
  | _ => rfl

/-- The head of a loop writes nothing. -/
theorem store_carryOut_count (h : m.carryOut i = some m') (command : i.command = .count) :
    m'.store = m.store := by
  unfold carryOut perform at h
  rw [command] at h
  cases h
  dsimp only [goOn, written, enterLoop]
  split <;> rfl

/-- Its end writes the counter, one higher. -/
theorem store_carryOut_next (h : m.carryOut i = some m') (command : i.command = .next) {line : Nat}
    (destination : i.destination = some line) :
    m'.store = m.store.writeIfPresent line
      (Text.ofUInt32 ((i.values m.store).unsigned 0 + 1)) := by
  unfold carryOut perform at h
  rw [command] at h
  cases h
  dsimp only [goOn, written]
  rw [destination]

end Machine

/-- What was pushed is popped. -/
theorem LinkStack.pop_push {s : LinkStack} (room : s.isFull = false) (line : Nat) :
    (s.push line).pop = (some line, s) := by
  rw [push, room]
  rfl

namespace CountingLoop

variable {l : CountingLoop} {c : Config} {m m' : Machine} {s : Store} {lines : List (Nat × Bool)}

/-- Lines of eleven bytes hold every word. -/
theorem line_writeIfPresent_ofUInt32 (wide : 11 ≤ s.row) (inside : l.counter < s.size) (n : UInt32) :
    (s.writeIfPresent l.counter (Text.ofUInt32 n)).line l.counter = Text.ofUInt32 n := by
  have kept : Slot.kept s.row (Text.ofUInt32 n) = (Text.ofUInt32 n).take (s.row - 1) :=
    (Result.unsigned n).kept_text s.row
  have short : (Text.ofUInt32 n).length ≤ 10 :=
    (Result.unsigned n).size_text ▸ (Result.unsigned n).size_text_le trivial
  rw [Store.line_writeIfPresent inside, kept, List.take_of_length_le (by omega)]

/-- The number that was written to the counter is read there. -/
theorem toNat_count {n : Nat} (text : s.line l.counter = Text.ofNat n) (small : n < 2 ^ 32) :
    (l.count s).toNat = n := by
  rw [count, text]
  have read : Numeral.toBits (Text.ofNat n) = n.toUInt32 := Numeral.toBits_ofNat false n
  rw [read]
  exact Nat.mod_eq_of_lt small

/-! ## On the way through a loop -/

/-- The machine is about to search a line, with the loop before it. -/
structure Ready (l : CountingLoop) (c : Config) (m : Machine) : Prop where
  sound : m.Sound c
  wide : 11 ≤ m.store.row
  stands : l.StandsIn c m.store
  spared : l.Spared m
  running : m.running = true
  stage : m.stage = .search

namespace Ready

theorem inside (h : l.Ready c m) : m.line < m.store.inputSlot :=
  h.sound.inside (by rw [h.stage]; decide)

/-- The lines up to the one past the end stand before the input line. -/
theorem lt_inputSlot (h : l.Ready c m) {line : Nat} (le : line ≤ l.last + 1) :
    line < m.store.inputSlot := by
  have slot := h.sound.inputSlot
  have inside := h.stands.inside
  omega

/-- Ready still, after a walk that leaves the lines of the loop saying what they said. -/
theorem walk (h : l.Ready c m) (walk : Machine.Walk l.first l.last m lines m')
    (running : m'.running = true) (stage : m'.stage = .search)
    (words : ∀ line ≤ l.last, l.first ≤ line → m'.store.wordsOf line = m.store.wordsOf line) :
    l.Ready c m' where
  sound := walk.sound h.sound
  wide := by
    rw [walk.evolves.shape.row]
    exact h.wide
  stands := h.stands.congr words
  spared := h.spared.walk walk
  running := running
  stage := stage

/-- The instruction of a command whose arguments are fixed. -/
theorem instruction? (h : l.Ready c m) (runs : m.session.flow.isSkipping = false) {k : Command}
    {n : Nat} (operands : List Operand) (command : m.store.command? m.line = some k) (le : n ≤ 8)
    (keeps : k.signature.operands = some n) (operator : k.signature.operator = false)
    (arguments : (m.store.argumentsOf m.line n).map Argument.fixed? = operands.map some) :
    ∃ op, m.instruction? = some ⟨k, op, operands⟩ := by
  have args : c.args ≥ 8 := h.sound.valid.args_ge
  have all : k.signature.keeps m.config.args = n := by
    rw [Signature.keeps, keeps, h.sound.config]
    exact Nat.min_eq_left (by omega)
  refine ⟨(Argument.parseAll (m.store.wordsOf m.line).2 false n).2, ?_⟩
  unfold Machine.instruction? Machine.decode
  rw [runs, command, if_neg Bool.false_ne_true, Option.map_some]
  simp only [Machine.settled, all, operator]
  rw [← Argument.map_resolve arguments]
  rfl

/-- Past a line that is skipped or carries no command. -/
theorem pass (h : l.Ready c m) (ge : l.first ≤ m.line) (le : m.line ≤ l.last)
    (none : m.instruction? = none) :
    Machine.Walk m.line m.line m (if m.session.flow.isSkipping then [] else [(m.line, true)])
      m.passLine ∧ l.Ready c m.passLine ∧ l.Keeps m.store m.passLine.store := by
  have walk := Machine.walk_of_none h.inside h.stage h.running none
  have keeps : l.Keeps m.store m.passLine.store := keeps_terminateLabel m.store ge le
  have slot : (m.store.terminateLabel m.line).inputSlot = m.store.inputSlot :=
    (m.store.evolves_terminateLabel m.line).inputSlot
  have stage : m.passLine.stage = .search := by
    have lt := h.lt_inputSlot (Nat.succ_le_succ le)
    exact if_neg (slot ▸ Nat.not_le.2 lt)
  exact ⟨walk, h.walk (walk.widen ge le) h.running stage keeps.words, keeps⟩

/-- Over a line with an instruction that stays in the loop or goes on behind it. -/
theorem across (h : l.Ready c m) {i : Instruction} (found : m.instruction? = some i)
    (stays : i.command.transfers = false) (waits : i.command.suspends = false)
    (halts : i.command.halts = false) :
    ∃ m' jump, m.settled.carryOut i = some m' ∧
      Machine.Walk m.line m.line m [(m.line, i.outcome (i.values m.settled.store))] m' ∧
      (m'.control, jump) =
        m.control.after m.line (i.outcome (i.values m.settled.store)) (some i.command) ∧
      m'.line = jump.getD (m.line + 1) ∧ m'.running = true ∧
      (m'.line ≤ l.last + 1 → m'.stage = .search) := by
  obtain ⟨m', carried, walk⟩ :=
    Machine.walk_of_instruction h.inside h.stage h.running found waits halts
  obtain ⟨jump, control, line, running, stage⟩ := Machine.control_carryOut stays halts carried
  have slot : m.settled.store.inputSlot = m.store.inputSlot :=
    (m.store.evolves_terminateLabel m.line).inputSlot
  refine ⟨m', jump, carried, walk, control, line, running.trans h.running, fun le => ?_⟩
  have lt := h.lt_inputSlot le
  rw [stage, slot, if_neg (Nat.not_le.2 lt)]

/-! ### Between head and end -/

/-- **A line between head and end** leads to the next. -/
theorem inner (h : l.Ready c m) (runs : m.session.flow.isSkipping = false)
    (gt : l.first < m.line) (lt : m.line < l.last) :
    ∃ m', Machine.Walk m.line m.line m [(m.line, true)] m' ∧ l.Ready c m' ∧
      m'.line = m.line + 1 ∧ m'.control = m.control ∧ l.Keeps m.store m'.store := by
  cases command : m.store.command? m.line with
  | none =>
    have none : m.instruction? = none := Machine.instruction?_eq_none_iff.2 (.inr command)
    obtain ⟨walk, ready, keeps⟩ := h.pass (Nat.le_of_lt gt) (Nat.le_of_lt lt) none
    have flow : m.flowPast = m.session.flow := by
      rw [Machine.flowPast, runs]
      rfl
    rw [runs] at walk
    refine ⟨m.passLine, walk, ready, rfl, ?_, keeps⟩
    change (⟨m.flowPast, m.session.link⟩ : Control) = _
    rw [flow]
    rfl
  | some k =>
    obtain ⟨unwatched, stays, waits, halts⟩ :=
      Command.isInner_iff.1 (h.stands.body m.line lt gt k command)
    have found : m.instruction? = some (m.settled.decode k (m.store.wordsOf m.line).2) := by
      rw [Machine.instruction?, runs, command]
      rfl
    obtain ⟨m', jump, -, walk, control, line, running, stage⟩ :=
      h.across found stays waits halts
    have plain : ∀ d, some k = some d → d.isPlain = true := by
      intro d same
      cases same
      exact unwatched
    -- a plain line has its way, jumps nowhere and starts no skipping
    have outcome : Instruction.outcome (m.settled.decode k (m.store.wordsOf m.line).2)
        ((m.settled.decode k (m.store.wordsOf m.line).2).values m.settled.store) = true :=
      Machine.outcome_of_isPlain unwatched _
    rw [outcome] at walk control
    obtain ⟨same, rfl⟩ := Prod.mk.inj
      (control.trans (m.control.after_of_isPlain m.line true plain))
    have keeps := h.spared.keeps gt lt walk
    refine ⟨m', walk, ?_, line, same, keeps⟩
    refine h.walk (walk.widen (Nat.le_of_lt gt) (Nat.le_of_lt lt)) running (stage ?_) keeps.words
    rw [line, Option.getD_none]
    omega

/-- **All lines up to the end** are run through. -/
theorem body (h : l.Ready c m) (runs : m.session.flow.isSkipping = false)
    (gt : l.first < m.line) (le : m.line ≤ l.last) :
    ∃ m', Machine.Walk l.first l.last m
        ((List.range' m.line (l.last - m.line)).map (·, true)) m' ∧ l.Ready c m' ∧
      m'.line = l.last ∧ m'.control = m.control ∧ l.Keeps m.store m'.store := by
  induction gap : l.last - m.line generalizing m with
  | zero => exact ⟨m, .stay m, h, by omega, rfl, .refl _⟩
  | succ gap ih =>
    obtain ⟨m₁, walk, ready, line, control, keeps⟩ := h.inner runs gt (by omega)
    have runs₁ : m₁.session.flow.isSkipping = false := by
      rw [show m₁.session.flow = m.session.flow from congrArg Control.flow control]
      exact runs
    obtain ⟨m₂, walk₂, ready₂, line₂, control₂, keeps₂⟩ :=
      ih ready runs₁ (by omega) (by omega) (by omega)
    refine ⟨m₂, ?_, ready₂, line₂, control₂.trans control, keeps.trans keeps₂⟩
    have both := (walk.widen (Nat.le_of_lt gt) le).trans walk₂
    rwa [line] at both

/-- Past a line that is skipped because the loop is not entered. -/
theorem skipped (h : l.Ready c m) (flow : m.session.flow = Flow.start .loop)
    (gt : l.first < m.line) (le : m.line ≤ l.last) :
    Machine.Walk l.first l.last m [] m.passLine ∧ l.Ready c m.passLine ∧
      m.passLine.session.flow = (Flow.start .loop).past (m.store.command? m.line) ∧
      l.Keeps m.store m.passLine.store := by
  have skips : m.session.flow.isSkipping = true := by
    rw [flow]
    rfl
  have none : m.instruction? = none := Machine.instruction?_eq_none_iff.2 (.inl skips)
  have past : m.flowPast = (Flow.start .loop).past (m.store.command? m.line) := by
    rw [Machine.flowPast, if_pos skips, flow]
  obtain ⟨walk, ready, keeps⟩ := h.pass (Nat.le_of_lt gt) le none
  rw [skips] at walk
  exact ⟨walk.widen (Nat.le_of_lt gt) le, ready, past, keeps⟩

/-- **The rest of a loop is skipped** with its end. -/
theorem skips (h : l.Ready c m) (flow : m.session.flow = Flow.start .loop)
    (gt : l.first < m.line) (le : m.line ≤ l.last) :
    ∃ m', Machine.Walk l.first l.last m [] m' ∧ l.Ready c m' ∧ m'.line = l.last + 1 ∧
      m'.session.flow = Flow.running ∧ m'.session.link = m.session.link ∧
      l.Keeps m.store m'.store := by
  induction gap : l.last - m.line generalizing m with
  | zero =>
    obtain ⟨walk, ready, past, keeps⟩ := h.skipped flow gt le
    have here : m.line = l.last := by omega
    rw [here, h.stands.foot] at past
    exact ⟨m.passLine, walk, ready, congrArg (· + 1) here, past, rfl, keeps⟩
  | succ n ih =>
    obtain ⟨walk, ready, past, keeps⟩ := h.skipped flow gt le
    have lt : m.line < l.last := by omega
    have on : m.passLine.session.flow = Flow.start .loop := by
      rw [past]
      cases command : m.store.command? m.line with
      | none => rfl
      | some k =>
        exact Flow.pass_of_isPlain (Command.isInner_iff.1 (h.stands.body m.line lt gt k command)).1
    obtain ⟨m₂, walk₂, ready₂, line₂, flow₂, link₂, keeps₂⟩ :=
      ih ready on (Nat.lt_succ_of_lt gt) lt (show l.last - (m.line + 1) = n by omega)
    exact ⟨m₂, walk.trans walk₂, ready₂, line₂, flow₂, link₂, keeps.trans keeps₂⟩

/-! ### Head and end -/

/-- **The head** compares the counter with the limit. -/
theorem enters (h : l.Ready c m) (runs : m.session.flow.isSkipping = false)
    (here : m.line = l.first) {taken : Bool}
    (compared : decide (l.count m.store ≤ l.bound m.store) = taken) :
    ∃ m', Machine.Walk l.first l.last m [(l.first, taken)] m' ∧ l.Ready c m' ∧
      m'.line = l.first + 1 ∧
      m'.control = (m.control.after l.first taken (some .count)).1 ∧ l.Keeps m.store m'.store := by
  have ordered := l.ordered
  have ge : l.first ≤ m.line := Nat.le_of_eq here.symm
  have le : m.line ≤ l.last := by omega
  have settled : l.Keeps m.store m.settled.store := keeps_terminateLabel m.store ge le
  obtain ⟨op, found⟩ := h.instruction? (n := 2) runs [.line l.counter, l.limit]
    (here ▸ h.stands.head) (by decide) rfl rfl (here ▸ h.stands.head_arguments)
  obtain ⟨m', jump, carried, walk, control, line, running, stage⟩ := h.across found rfl rfl rfl
  have outcome : Instruction.outcome ⟨.count, op, [.line l.counter, l.limit]⟩
      (Instruction.values ⟨.count, op, [.line l.counter, l.limit]⟩ m.settled.store) = taken := by
    rw [← compared, ← settled.count, ← bound_congr settled.limit]
    rfl
  rw [outcome, here] at walk control
  obtain rfl : jump = none := by
    cases taken <;> exact (Prod.mk.inj control).2
  have store : m'.store = m.settled.store := Machine.store_carryOut_count carried rfl
  have keeps : l.Keeps m.store m'.store := by
    rw [store]
    exact settled
  rw [here] at line
  refine ⟨m', ?_, ?_, line, congrArg Prod.fst control, keeps⟩
  · exact walk.widen (Nat.le_refl _) (Nat.le_of_lt ordered)
  · refine h.walk (walk.widen (Nat.le_refl _) (Nat.le_of_lt ordered)) running (stage ?_) keeps.words
    rw [line, Option.getD_none]
    omega

/-- **The end** counts up and goes back to the head, if that was stacked last. -/
theorem closes (h : l.Ready c m) (runs : m.session.flow.isSkipping = false)
    (here : m.line = l.last) {link : LinkStack} (top : m.session.link.pop = (some l.first, link)) :
    ∃ m', Machine.Walk l.first l.last m [(l.last, true)] m' ∧ l.Ready c m' ∧
      m'.line = l.first ∧ m'.control = ⟨m.session.flow, link⟩ ∧
      l.bound m'.store = l.bound m.store ∧
      m'.store.line l.counter = Text.ofUInt32 (l.count m.store + 1) := by
  have ordered := l.ordered
  have ge : l.first ≤ m.line := by omega
  have le : m.line ≤ l.last := Nat.le_of_eq here
  have settled : l.Keeps m.store m.settled.store := keeps_terminateLabel m.store ge le
  obtain ⟨op, found⟩ := h.instruction? (n := 1) runs [.line l.counter]
    (here ▸ h.stands.foot) (by decide) rfl rfl (here ▸ h.stands.foot_arguments)
  obtain ⟨m', jump, carried, walk, control, line, running, stage⟩ := h.across found rfl rfl rfl
  have outcome : Instruction.outcome ⟨.next, op, [.line l.counter]⟩
      (Instruction.values ⟨.next, op, [.line l.counter]⟩ m.settled.store) = true := rfl
  rw [outcome, here] at walk control
  have popped : m.control.after l.last true (some .next) = (⟨m.session.flow, link⟩, some l.first) := by
    change ((⟨m.session.flow, m.session.link.pop.2⟩ : Control), m.session.link.pop.1) = _
    rw [top]
  obtain ⟨after, rfl⟩ := Prod.mk.inj (control.trans popped)
  have store : m'.store =
      m.settled.store.writeIfPresent l.counter (Text.ofUInt32 (l.count m.settled.store + 1)) :=
    Machine.store_carryOut_next carried rfl rfl
  rw [settled.count] at store
  have words : ∀ line ≤ l.last, l.first ≤ line →
      m'.store.wordsOf line = m.store.wordsOf line := by
    intro line le ge
    rw [store, wordsOf_writeIfPresent _ _ line le ge]
    exact settled.words line le ge
  refine ⟨m', walk.widen (Nat.le_of_lt ordered) (Nat.le_refl _), ?_, line, after, ?_, ?_⟩
  · refine h.walk (walk.widen (Nat.le_of_lt ordered) (Nat.le_refl _)) running (stage ?_) words
    rw [line, Option.getD_some]
    omega
  · rw [store, bound_writeIfPresent, bound_congr settled.limit]
  · have shape := m.store.terminateLabel_shape m.line
    have inside : l.counter < m.settled.store.size := by
      rw [show m.settled.store.size = m.store.size from shape.size, h.sound.size]
      exact h.stands.counter_inside
    rw [store]
    exact line_writeIfPresent_ofUInt32 (shape.row ▸ h.wide) inside _

/-! ### Rounds -/

/-- The lines of a round, from its head to its end. -/
theorem round_eq (l : CountingLoop) :
    l.round = (l.first, true) ::
      ((List.range' (l.first + 1) (l.last - (l.first + 1))).map (·, true) ++ [(l.last, true)]) := by
  have ordered := l.ordered
  have size : l.last + 1 - l.first = (l.last - (l.first + 1)) + 1 + 1 := by omega
  have last : l.first + 1 + 1 * (l.last - (l.first + 1)) = l.last := by omega
  rw [round, size, List.range'_succ, List.range'_concat, last, List.map_cons, List.map_append]
  rfl

/-- **A round** runs all lines of the loop, counts one up and leaves the rest as
it was. -/
theorem round (h : l.Ready c m) (runs : m.session.flow.isSkipping = false)
    (room : m.session.link.isFull = false) (here : m.line = l.first)
    (below : (l.bound m.store).toNat < 2 ^ 32 - 1) (le : l.count m.store ≤ l.bound m.store) :
    ∃ m', Machine.Walk l.first l.last m l.round m' ∧ l.Ready c m' ∧ m'.line = l.first ∧
      m'.control = m.control ∧ l.bound m'.store = l.bound m.store ∧
      m'.store.line l.counter = Text.ofNat ((l.count m.store).toNat + 1) := by
  have ordered := l.ordered
  obtain ⟨m₁, walk₁, ready₁, line₁, control₁, keeps₁⟩ := h.enters runs here (decide_eq_true le)
  have stacked : m₁.control = ⟨m.session.flow, m.session.link.push l.first⟩ := control₁
  have flow₁ : m₁.session.flow = m.session.flow := congrArg Control.flow stacked
  obtain ⟨m₂, walk₂, ready₂, line₂, control₂, keeps₂⟩ :=
    ready₁.body (flow₁ ▸ runs) (by omega) (by omega)
  have flow₂ : m₂.session.flow = m.session.flow := congrArg Control.flow (control₂.trans stacked)
  have link₂ : m₂.session.link = m.session.link.push l.first :=
    congrArg Control.link (control₂.trans stacked)
  have top : m₂.session.link.pop = (some l.first, m.session.link) := by
    rw [link₂, LinkStack.pop_push room]
  obtain ⟨m₃, walk₃, ready₃, line₃, control₃, bound₃, text₃⟩ :=
    ready₂.closes (flow₂ ▸ runs) line₂ top
  refine ⟨m₃, ?_, ready₃, line₃, ?_, ?_, ?_⟩
  · rw [round_eq]
    rw [line₁] at walk₂
    exact walk₁.trans (walk₂.trans walk₃)
  · rw [control₃, flow₂]
    rfl
  · rw [bound₃, bound_congr keeps₂.limit, bound_congr keeps₁.limit]
  · have most := UInt32.le_iff_toNat_le.1 le
    have next : (l.count m.store + 1).toNat = (l.count m.store).toNat + 1 := by
      rw [UInt32.toNat_add]
      exact Nat.mod_eq_of_lt (show (l.count m.store).toNat + 1 < 2 ^ 32 by omega)
    rw [text₃, keeps₂.count, keeps₁.count, Text.ofUInt32, next]

/-- **All rounds and the way out**, by induction on how many are left. -/
theorem rounds (h : l.Ready c m) (runs : m.session.flow.isSkipping = false)
    (room : m.session.link.isFull = false) (here : m.line = l.first)
    (below : (l.bound m.store).toNat < 2 ^ 32 - 1) {n : Nat}
    (left : (l.bound m.store).toNat + 1 - (l.count m.store).toNat = n) :
    ∃ m', Machine.Walk l.first l.last m ((List.replicate n l.round).flatten ++ [(l.first, false)]) m' ∧
      l.Ready c m' ∧ m'.line = l.last + 1 ∧ m'.session.flow = Flow.running ∧
      m'.session.link = m.session.link ∧
      (if n = 0 then m'.store.slots[l.counter]? = m.store.slots[l.counter]?
        else m'.store.line l.counter = Text.ofNat ((l.bound m.store).toNat + 1)) := by
  have ordered := l.ordered
  induction n generalizing m with
  | zero =>
    have past : ¬ l.count m.store ≤ l.bound m.store := by
      rw [UInt32.le_iff_toNat_le]
      omega
    obtain ⟨m₁, walk₁, ready₁, line₁, control₁, keeps₁⟩ := h.enters runs here (decide_eq_false past)
    have flow₁ : m₁.session.flow = Flow.start .loop := congrArg Control.flow control₁
    have link₁ : m₁.session.link = m.session.link := congrArg Control.link control₁
    obtain ⟨m₂, walk₂, ready₂, line₂, flow₂, link₂, keeps₂⟩ :=
      ready₁.skips flow₁ (by omega) (by omega)
    refine ⟨m₂, ?_, ready₂, line₂, flow₂, link₂.trans link₁, (keeps₁.trans keeps₂).counter⟩
    exact walk₁.trans walk₂
  | succ n ih =>
    have le : l.count m.store ≤ l.bound m.store := by
      rw [UInt32.le_iff_toNat_le]
      omega
    obtain ⟨m₁, walk₁, ready₁, line₁, control₁, bound₁, text₁⟩ := h.round runs room here below le
    have flow₁ : m₁.session.flow = m.session.flow := congrArg Control.flow control₁
    have link₁ : m₁.session.link = m.session.link := congrArg Control.link control₁
    have most := UInt32.le_iff_toNat_le.1 le
    have counted := toNat_count text₁ (by omega)
    obtain ⟨m₂, walk₂, ready₂, line₂, flow₂, link₂, counter₂⟩ :=
      ih ready₁ (flow₁ ▸ runs) (link₁ ▸ room) line₁ (bound₁ ▸ below) (by rw [bound₁]; omega)
    refine ⟨m₂, ?_, ready₂, line₂, flow₂, link₂.trans link₁, ?_⟩
    · rw [List.replicate_succ, List.flatten_cons, List.append_assoc]
      exact walk₁.trans walk₂
    · rw [if_neg (Nat.succ_ne_zero n)]
      cases n with
      | zero =>
        -- the last round has left the number behind the limit
        have last : (l.count m.store).toNat = (l.bound m.store).toNat := by omega
        rw [Store.line, counter₂, ← last]
        exact text₁
      | succ n =>
        rw [bound₁] at counter₂
        exact counter₂

end Ready

/-- **A counting loop runs its lines once for each number** from its counter up
to its limit, and not at all if the counter is past it. Then the run goes on
behind the loop, with nothing skipped and the link stack as it was; the counter
is one past the limit if the loop was entered, and as it was if not. A host that
goes on executing gets there. -/
theorem counting_loop (reached : Machine.Reachable c m) (wide : 11 ≤ c.row)
    (stands : l.StandsIn c m.store) (spared : l.Spared m) (running : m.running = true)
    (stage : m.stage = .search) (here : m.line = l.first)
    (unskipped : m.session.flow.isSkipping = false) (room : m.session.link.isFull = false)
    (below : (l.bound m.store).toNat < 2 ^ 32 - 1) :
    ∃ m', Machine.Walk l.first l.last m ((List.replicate
        ((l.bound m.store).toNat + 1 - (l.count m.store).toNat) l.round).flatten ++
          [(l.first, false)]) m' ∧
      m'.running = true ∧ m'.stage = .search ∧ m'.line = l.last + 1 ∧
      m'.session.flow.isSkipping = false ∧ m'.session.link = m.session.link ∧
      (if l.count m.store ≤ l.bound m.store then
        m'.store.line l.counter = Text.ofNat ((l.bound m.store).toNat + 1) ∧
          (l.count m'.store).toNat = (l.bound m.store).toNat + 1
      else m'.store.slots[l.counter]? = m.store.slots[l.counter]?) ∧
      (m.interrupted = false →
        ∃ n, (m.calls (List.replicate n (.execute 1))).unshown = m'.unshown) := by
  have ready : l.Ready c m := ⟨reached.sound, reached.row ▸ wide, stands, spared, running, stage⟩
  obtain ⟨m', walk, after, line, flow, link, counter⟩ := ready.rounds unskipped room here below rfl
  refine ⟨m', walk, after.running, after.stage, line, by rw [flow]; rfl, link, ?_,
    walk.exists_executes⟩
  split
  · next le =>
    have most := UInt32.le_iff_toNat_le.1 le
    rw [if_neg (by omega)] at counter
    exact ⟨counter, toNat_count counter (by omega)⟩
  · next past =>
    have more := mt UInt32.le_iff_toNat_le.2 past
    rw [if_pos (by omega)] at counter
    exact counter

/-- From a blank counter up to one a loop runs twice, here with a line that
copies the counter. -/
theorem counting_loop_twice :
    ∃ (l : CountingLoop) (m m' : Machine) (lines : List (Nat × Bool)),
      Machine.Reachable { lines := 9, row := 11 } m ∧
      l.StandsIn { lines := 9, row := 11 } m.store ∧ l.Spared m ∧
      Machine.Walk l.first l.last m lines m' ∧
      lines = [(1, true), (2, true), (3, true), (1, true), (2, true), (3, true), (1, false)] ∧
      m'.line = 4 ∧ m'.store.line 6 = "2".toList := by
  have reached := (@Machine.Reachable.new { lines := 9, row := 11 } { clock := .stepped 0 } default _
    rfl).calls [.write 1 "for @6 1".toList, .write 2 "let @5 @6".toList, .write 3 "next @6".toList,
      .receive "run".toList]
  generalize stands : Machine.calls _ _ = m at reached
  let l : CountingLoop :=
    { first := 1, last := 3, counter := 6, limit := .immediate ['1'], ordered := by decide
      counter_outside := by decide, limit_outside := nofun }
  have placed : l.StandsIn { lines := 9, row := 11 } m.store := by
    rw [← stands]
    decide +kernel
  have spared : l.Spared m := by
    refine spared_of_leaves (n := 37) ?_ ?_
    · rw [← stands]
      decide +kernel
    · rw [← stands]
      decide +kernel
  have here : m.running = true ∧ m.line = 1 ∧ m.session.flow.isSkipping = false ∧
      m.session.link.isFull = false ∧ l.count m.store = 0 := by
    rw [← stands]
    decide +kernel
  have stage : m.stage = .search := by
    rw [← stands]
    rfl
  have bound : l.bound m.store = 1 := by
    change Numeral.toBits ['1'] = 1
    decide
  obtain ⟨running, line, unskipped, room, count⟩ := here
  obtain ⟨m', walk, -, -, behind, -, -, counted, -⟩ := counting_loop reached (by decide) placed spared
    running stage line unskipped room (by rw [bound]; decide)
  rw [count, bound] at counted
  rw [count, bound] at walk
  exact ⟨l, m, m', _, reached, placed, spared, walk, by decide, behind, counted.1⟩

end CountingLoop

end LineScript
