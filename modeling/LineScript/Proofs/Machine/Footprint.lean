import LineScript.Proofs.Machine.Cycle
import LineScript.Proofs.Machine.Handshake
import LineScript.Proofs.Machine.Lines
import LineScript.Proofs.Store.Labels
/-!
# Footprints

Every line is both code and data, so it matters which of them an instruction
can change: its own, whose label is terminated when it is found, that of its
result, and what its command reaches (`Reaches`). Those are all, from the
search that finds the instruction to the write of its result, however the
cycles are spread over calls and whatever else the host does between them
short of writing to a line itself (`instruction_footprint`). A line that is
skipped or carries no command has its label terminated and the skipping
brought up to date, and nothing else.
-/

namespace LineScript

/-- To load a line changes no other. -/
theorem Transfer.getElem?_loadLine {chip k line : Nat} (x : Store × Eeprom) (other : line ≠ k) :
    (loadLine chip k x).2.1.slots[line]? = x.1.slots[line]? := by
  obtain ⟨s, e⟩ := x
  unfold loadLine
  dsimp only
  split
  · rfl
  · next bytes _ _ =>
    have written := Store.snd_write s k (Slot.textOfBytes bytes)
    have kept := Store.getElem?_writeIfPresent_of_ne (s := s) (Slot.textOfBytes bytes) other
    rw [← written] at kept
    unfold Store.writeBytes
    split
    all_goals
      next put =>
        rw [put] at kept
        exact kept

/-- A transfer changes the lines it loads, and no others. -/
theorem Transfer.getElem?_load {chip count first line : Nat} (s : Store) (e : Eeprom)
    (outside : line < first ∨ first + count ≤ line) :
    (load chip count first s e).2.1.slots[line]? = s.slots[line]? :=
  sweep_keeps (P := fun x : Store × Eeprom => x.1.slots[line]? = s.slots[line]?)
    (fun _ x _ _ before => (getElem?_loadLine x (by omega)).trans before) rfl

/-- Whether an instruction was found and its result is yet to be written. -/
def Stage.isUnderway : Stage → Bool
  | search | terminate => false
  | _ => true

namespace HostCall

/-- A call that does at most one cycle, and writes to no line itself. -/
def IsSingle : HostCall → Prop
  | execute cycles => cycles ≤ 1
  | change _ => False
  | receive _ | interrupt | service => True

instance (k : HostCall) : Decidable k.IsSingle :=
  match k with
  | execute cycles => inferInstanceAs (Decidable (cycles ≤ 1))
  | change _ => inferInstanceAs (Decidable False)
  | receive _ | interrupt | service => inferInstanceAs (Decidable True)

/-- Whether a call is a tick of the timer. -/
def isService : HostCall → Bool
  | service => true
  | _ => false

end HostCall

namespace Machine

variable {c : Config} {m m' m'' : Machine} {i : Instruction} {v : Sources} {line ticks : Nat}
  {k : HostCall} {ks : List HostCall}

/-! ## What a command reaches -/

/-- The lines that a command writes to besides the one of its result, or that
are written to on its behalf. -/
def Reaches (m : Machine) (i : Instruction) (v : Sources) (line : Nat) : Prop :=
  match i.command with
  | .getTime => .line line ∈ i.operands
  | .push => line = (m.session.push m.store (v.text 0)).1.scratch
  | .pop => line = m.session.scratch
  | .label => m.line ≤ line ∧ m.store.isLabelLine line = true
  | .load => v.number 1 ≤ line ∧ line ≤ v.number 2
  | .input | .read => line = m.store.inputSlot
  | .clear => True
  | _ => False

/-- The fields of a timestamp go to the lines of the operands. -/
theorem getElem?_writeFields {operands : List Operand} (fields : List Int)
    (other : .line line ∉ operands) :
    (m.writeFields operands fields).store.slots[line]? = m.store.slots[line]? := by
  unfold writeFields
  generalize m.store = s
  dsimp only
  have free : ∀ field ∈ operands.zip fields, field.1 ≠ .line line := by
    intro field mem same
    exact other (same ▸ (List.of_mem_zip mem).1)
  generalize operands.zip fields = written at free
  induction written generalizing s with
  | nil => rfl
  | cons field rest ih =>
    obtain ⟨now, later⟩ := List.forall_mem_cons.1 free
    rw [List.foldl_cons, ih _ later]
    split
    · next target there =>
      refine Store.getElem?_writeIfPresent_of_ne _ ?_
      rintro rfl
      obtain ⟨operand, n⟩ := field
      cases operand with
      | line k => exact now (congrArg Operand.line (Option.some.inj there))
      | immediate | empty => cases there
    · rfl

/-- **A command changes the lines it reaches**, and no others. -/
theorem getElem?_perform (clean : m.store.Clean) (other : ¬ m.Reaches i v line) :
    (m.perform i v).2.store.slots[line]? = m.store.slots[line]? := by
  unfold Reaches at other
  unfold perform
  cases command : i.command with
  | getTime =>
    rw [command] at other
    exact getElem?_writeFields _ other
  | push =>
    rw [command] at other
    exact Store.getElem?_writeIfPresent_of_ne _ other
  | pop =>
    rw [command] at other
    dsimp only [Session.pop]
    split
    · rfl
    split
    · rfl
    · exact Store.getElem?_writeIfPresent_of_ne _ other
  | label =>
    rw [command] at other
    refine (LabelTable.rebuild_exact m.session.labels clean m.line).kept line ?_
    cases label : m.store.isLabelLine line with
    | false => exact .inr (.inl rfl)
    | true => exact .inl (Nat.lt_of_not_le fun reached => other ⟨reached, label⟩)
  | load =>
    rw [command] at other
    exact Transfer.getElem?_load _ _ (by omega)
  | clear =>
    rw [command] at other
    exact absurd trivial other
  | call | branch | pointer | picture =>
    dsimp only
    split <;> rfl
  | loop | count =>
    dsimp only [enterLoop]
    split <;> rfl
  | gpio | sound | interruptSound =>
    dsimp only [withArray]
    split <;> rfl
  | _ => rfl

/-- What a command reaches depends on the lines, the session and the place of the machine. -/
theorem reaches_congr (store : m'.store = m.store) (session : m'.session = m.session)
    (place : m'.line = m.line) : m'.Reaches i v line ↔ m.Reaches i v line := by
  unfold Reaches
  rw [store, session, place]

/-- An instruction that reads no operands reaches the same lines without their values. -/
theorem reaches_of_reads_eq_zero (unread : i.reads = 0) :
    m.Reaches i [] line ↔ m.Reaches i (i.values m.store) line := by
  unfold Instruction.reads at unread
  split at unread
  · next domain =>
    unfold Reaches
    cases command : i.command with
    | load =>
      rw [command] at domain
      cases domain
    | _ => rfl
  · rw [Instruction.values, List.length_eq_zero_iff.1 unread]
    rfl

/-- A command that asks for a line has it written to the input line. -/
theorem reaches_of_asks (asks : i.command.asks = true) : m.Reaches i v m.store.inputSlot := by
  unfold Reaches
  cases command : i.command with
  | input | read => rfl
  | _ =>
    rw [command] at asks
    cases asks

/-- The lines that an instruction on the current line can change: that of its
result, and those its command reaches. -/
def Touches (m : Machine) (i : Instruction) (line : Nat) : Prop :=
  i.destination = some line ∨ m.Reaches i (i.values m.store) line

/-! ## While an instruction is under way -/

/-- Single calls, each made while an instruction is under way. -/
def Within : Machine → List HostCall → Prop
  | _, [] => True
  | m, k :: ks => m.stage.isUnderway = true ∧ k.IsSingle ∧ (m.call k).2.Within ks

instance decidableWithin : (m : Machine) → (ks : List HostCall) → Decidable (m.Within ks)
  | _, [] => inferInstanceAs (Decidable True)
  | m, k :: ks =>
    have := decidableWithin (m.call k).2 ks
    inferInstanceAs (Decidable (m.stage.isUnderway = true ∧ k.IsSingle ∧ (m.call k).2.Within ks))

/-- **What a single call does while an instruction is under way**, and how many
ticks of the timer it is. -/
inductive Moved (m : Machine) : (ticks : Nat) → Machine → Prop where
  | same : Moved m 0 m
  | noted : Moved m 0 m.interrupt
  | ticked : Moved m 1 m.service
  | printed : m.output ≠ [] → Moved m 0 { m with output := [] }
  | listed : Moved m 0 { m with listing := none }
  /-- A break ends the run. -/
  | broken : Moved m 0 { m with interrupted := false }.terminate
  | stepped : Moved m 0 m.step
  /-- The line that was awaited is entered. -/
  | answered {t prompt : Text} {destination : Option Nat} :
      m.stage = .awaiting prompt destination →
      Moved m 0 { m.noting t with
        stage := .advance (destination.map (·, (m.noting t).store.line m.store.inputSlot)) none }

/-- What is under way runs. -/
theorem Reachable.running (reachable : Reachable c m) (underway : m.stage.isUnderway = true) :
    m.running = true := by
  by_contra stopped
  rw [(reachable.sound.stopped (Bool.eq_false_iff.2 stopped)).1] at underway
  cases underway

/-- A single call does one of these. -/
theorem Reachable.moved (reachable : Reachable c m) (underway : m.stage.isUnderway = true)
    (single : k.IsSingle) :
    m.Moved (if k.isService then 1 else 0) (m.call k).2 := by
  have runs : m.running ≠ false := by
    rw [reachable.running underway]
    decide
  cases k with
  | interrupt => exact .noted
  | service => exact .ticked
  | change change => exact absurd single id
  | execute cycles =>
    obtain rfl | rfl : cycles = 0 ∨ cycles = 1 := Nat.le_one_iff_eq_zero_or_eq_one.1 single
    · exact .same
    · rw [call_execute_one]
      have cycled := m.cycled
      generalize m.cycle.1 = told, m.cycle.2 = next at cycled
      cases cycled with
      | print some => exact .printed some
      | list => exact .listed
      | stopped quiet none stopped => exact absurd stopped runs
      | broken => exact .broken
      | input => exact .same
      | step => exact .stepped
  | receive t =>
    have received := m.received t
    show m.Moved 0 (m.receive t).2
    generalize (m.receive t).1 = used, (m.receive t).2 = next at received
    cases received with
    | broken => exact .noted
    | edited plain stopped => exact absurd stopped runs
    | ignored => exact .same
    | taken plain running stage => exact .answered stage

/-- What a stage holds of the instruction `i` that `m` has found: until its
command is carried out, the lines, the session and the place are those of `m`. -/
inductive Holds (m : Machine) (i : Instruction) (m' : Machine) : Stage → Prop where
  | enumerate {n : Nat} : m'.store = m.store → m'.session = m.session → m'.line = m.line →
      n < i.operands.length → Holds m i m' (.enumerate i ((i.values m.store).take n))
  | execute {v : Sources} : m'.store = m.store → m'.session = m.session → m'.line = m.line →
      v = i.values m.store ∨ (v = [] ∧ i.reads = 0) → Holds m i m' (.execute i v)
  | advance {write : Option (Nat × Text)} {jump : Option Nat} :
      (∀ line t, write = some (line, t) → i.destination = some line) →
      Holds m i m' (.advance write jump)
  | awaiting {prompt : Text} : i.command.asks = true →
      Holds m i m' (.awaiting prompt i.destination)
  | sleeping {deadline : Nat} : Holds m i m' (.sleeping deadline)
  | search : Holds m i m' .search
  | terminate : Holds m i m' .terminate

/-- The instruction `i` that `m` has found has changed no lines but those it
touches, and its stage will not. -/
structure Confined (m : Machine) (i : Instruction) (m' : Machine) : Prop where
  kept : ∀ line, ¬ m.Touches i line → m'.store.slots[line]? = m.store.slots[line]?
  holds : m.Holds i m' m'.stage

namespace Confined

/-- Only the lines, the session, the place and the stage matter. -/
theorem congr (h : m.Confined i m') (store : m''.store = m'.store)
    (session : m''.session = m'.session) (place : m''.line = m'.line)
    (stage : m''.stage = m'.stage) : m.Confined i m'' := by
  refine ⟨fun line free => store ▸ h.kept line free, ?_⟩
  have holds := h.holds
  rw [stage]
  generalize m'.stage = s at holds
  cases holds with
  | enumerate s' e l n => exact .enumerate (store.trans s') (session.trans e) (place.trans l) n
  | execute s' e l v => exact .execute (store.trans s') (session.trans e) (place.trans l) v
  | advance w => exact .advance w
  | awaiting a => exact .awaiting a
  | sleeping => exact .sleeping
  | search => exact .search
  | terminate => exact .terminate

/-- The write of a result is to the line of the first operand. -/
theorem advance (h : m.Confined i m') {write : Option (Nat × Text)} (jump : Option Nat)
    (result : ∀ line t, write = some (line, t) → i.destination = some line) :
    m.Confined i (m'.advance write jump) := by
  refine ⟨fun line free => ?_, ?_⟩
  · unfold Machine.advance
    cases write with
    | none => exact h.kept line free
    | some there =>
      have other : line ≠ there.1 := by
        rintro rfl
        exact free (.inl (result _ _ rfl))
      exact (Store.getElem?_writeIfPresent_of_ne _ other).trans (h.kept line free)
  · have ends : (m'.advance write jump).stage = .search ∨
        (m'.advance write jump).stage = .terminate := by
      unfold Machine.advance
      dsimp only
      split
      · exact .inr rfl
      · exact .inl rfl
    rcases ends with stage | stage
    · rw [stage]
      exact .search
    · rw [stage]
      exact .terminate

/-- One more operand is read. -/
theorem read {n : Nat} (h : m.Confined i m') (store : m'.store = m.store)
    (session : m'.session = m.session) (place : m'.line = m.line) (left : n < i.operands.length) :
    m.Confined i (m'.enumerate i ((i.values m.store).take n)) := by
  have next : m'.enumerate i ((i.values m.store).take n) =
      m'.enter (if i.operands.length ≤ n + 1 then .execute i (i.values m.store)
        else .enumerate i ((i.values m.store).take (n + 1))) := by
    rw [← store]
    exact step_enumerate left
  rw [next]
  refine ⟨h.kept, ?_⟩
  dsimp only [enter]
  split
  · exact .execute store session place (.inl rfl)
  · next more => exact .enumerate store session place (Nat.lt_of_not_le more)

/-- The command is carried out. -/
theorem perform (h : m.Confined i m') (clean : m'.store.Clean) (store : m'.store = m.store)
    (session : m'.session = m.session) (place : m'.line = m.line)
    (sources : v = i.values m.store ∨ (v = [] ∧ i.reads = 0)) :
    m.Confined i ((m'.perform i v).2.enter (i.stageAfter (m'.perform i v).1)) := by
  refine ⟨fun line free => ?_, ?_⟩
  · -- ticks may have changed the board since the search, but what is reached does not depend on it
    refine (getElem?_perform clean fun reaches => free (.inr ?_)).trans (h.kept line free)
    have reached := (reaches_congr store session place).1 reaches
    rcases sources with rfl | ⟨rfl, unread⟩
    · exact reached
    · exact (reaches_of_reads_eq_zero unread).1 reached
  · have asks := m'.asks_perform i v
    dsimp only [enter]
    cases effect : (m'.perform i v).1 with
    | proceed write jump =>
      refine .advance fun line t made => ?_
      obtain ⟨t', -, target⟩ := Option.bind_eq_some_iff.1 made
      obtain ⟨line', there, same⟩ := Option.map_eq_some_iff.1 target
      rw [there, (Prod.mk.inj same).1]
    | ask prompt =>
      rw [effect] at asks
      exact .awaiting asks.symm
    | pause deadline => exact .sleeping
    | halt => exact .terminate

/-- A step of the instruction. -/
theorem step (h : m.Confined i m') (clean : m'.store.Clean)
    (underway : m'.stage.isUnderway = true) : m.Confined i m'.step := by
  have stepped := m'.stepped
  have holds := h.holds
  generalize m'.step = next at stepped
  cases stepped with
  | past stage | found stage | passed stage | ended stage =>
    rw [stage] at underway
    cases underway
  | read stage =>
    rw [stage] at holds
    cases holds with
    | enumerate store session place left => exact h.read store session place left
  | performed stage =>
    rw [stage] at holds
    cases holds with
    | execute store session place sources =>
      exact h.perform clean store session place sources
  | advanced stage =>
    rw [stage] at holds
    cases holds with
    | advance result => exact h.advance _ result
  | awaits stage => exact h
  | slept stage early clock => exact h.congr rfl rfl rfl rfl
  | @woken deadline clock =>
    have awake : m.Confined i { m' with board := { m'.board with clock } } :=
      h.congr rfl rfl rfl rfl
    exact awake.advance none fun _ _ => nofun

/-- The answer that was awaited is for the line of the first operand, and goes
through the input line. -/
theorem answer (h : m.Confined i m') (slot : m'.store.inputSlot = m.store.inputSlot)
    {t prompt : Text} {destination : Option Nat} (stage : m'.stage = .awaiting prompt destination) :
    m.Confined i { m'.noting t with
      stage :=
        .advance (destination.map (·, (m'.noting t).store.line m'.store.inputSlot)) none } := by
  have holds := h.holds
  rw [stage] at holds
  cases holds with
  | awaiting asks =>
    refine ⟨fun line free => ?_, .advance fun line t made => ?_⟩
    · have other : line ≠ m'.store.inputSlot := by
        rintro rfl
        exact free (.inr (slot ▸ reaches_of_asks asks))
      exact (Store.getElem?_writeIfPresent_of_ne _ other).trans (h.kept line free)
    · obtain ⟨line', there, same⟩ := Option.map_eq_some_iff.1 made
      rw [there, (Prod.mk.inj same).1]

/-- **A call made while the instruction is under way** carries it on, or ends the run. -/
theorem call (h : m.Confined i m') (reachable : Reachable c m')
    (slot : m'.store.inputSlot = m.store.inputSlot) (underway : m'.stage.isUnderway = true)
    (single : k.IsSingle) : m.Confined i (m'.call k).2 := by
  have moved := reachable.moved underway single
  generalize (if k.isService then 1 else 0) = ticks, (m'.call k).2 = next at moved
  cases moved with
  | same => exact h
  | noted | ticked | printed | listed => exact h.congr rfl rfl rfl rfl
  | broken => exact ⟨h.kept, .search⟩
  | stepped => exact h.step reachable.clean underway
  | answered stage => exact h.answer slot stage

/-- So do several. -/
theorem calls (h : m.Confined i m') (reachable : Reachable c m')
    (slot : m'.store.inputSlot = m.store.inputSlot) (within : m'.Within ks) :
    m.Confined i (m'.calls ks) := by
  induction ks generalizing m' with
  | nil => exact h
  | cons k ks ih =>
    obtain ⟨underway, single, rest⟩ := within
    refine ih (h.call reachable slot underway single) (reachable.call k) ?_ rest
    rw [(reachable.call k).sound.inputSlot, ← reachable.sound.inputSlot, slot]

end Confined

/-- The search that finds an instruction begins it. -/
theorem confined_found (m : Machine) (i : Instruction) :
    m.settled.Confined i (m.settled.enter i.firstStage) := by
  refine ⟨fun _ _ => rfl, ?_⟩
  dsimp only [enter]
  rcases Nat.eq_zero_or_pos i.reads with unread | some
  · rw [firstStage_of_reads_eq_zero unread]
    exact .execute rfl rfl rfl (.inr ⟨rfl, unread⟩)
  · rw [firstStage_of_reads some]
    have left : 0 < i.operands.length := Instruction.reads_eq_length some ▸ some
    exact .enumerate (n := 0) rfl rfl rfl left

/-! ## While a line is passed -/

/-- The line of `m` is passed: its label is terminated, and as long as the
script runs nothing else is changed but the skipping, and the board by so many
ticks of the timer. -/
structure Passes (m : Machine) (ticks : Nat) (m' : Machine) : Prop where
  store : m'.store = m.settled.store
  stage : m'.stage.isUnderway = true → m'.stage = .advance none none
  session : m'.running = true → m'.session = { m.session with flow := m.flowPast }
  board : m'.running = true → m'.board = Board.service^[ticks] m.board
  output : m'.running = true → m'.output = m.output
  random : m'.running = true → m'.random = m.random

namespace Passes

/-- The step behind the line. -/
theorem step (h : m.Passes ticks m') (stage : m'.stage = .advance none none) :
    m.Passes ticks m'.step := by
  have next : m'.step = m'.advance none none := by
    unfold Machine.step
    rw [stage]
  have past : (m'.advance none none).stage.isUnderway = false := by
    unfold Machine.advance
    dsimp only
    split <;> rfl
  rw [next]
  refine ⟨h.store, fun underway => ?_, h.session, h.board, h.output, h.random⟩
  rw [past] at underway
  cases underway

/-- A call made before it. -/
theorem call (h : m.Passes ticks m') (reachable : Reachable c m') (shown : m.output = [])
    (underway : m'.stage.isUnderway = true) (single : k.IsSingle) :
    m.Passes (ticks + if k.isService then 1 else 0) (m'.call k).2 := by
  have stage := h.stage underway
  have runs := reachable.running underway
  have moved := reachable.moved underway single
  generalize (if k.isService then 1 else 0) = more, (m'.call k).2 = next at moved
  cases moved with
  | same => exact h
  | noted | listed => exact ⟨h.store, h.stage, h.session, h.board, h.output, h.random⟩
  | ticked =>
    refine ⟨h.store, h.stage, h.session, fun running => ?_, h.output, h.random⟩
    rw [Function.iterate_succ_apply', ← h.board running]
    rfl
  | printed some => exact absurd ((h.output runs).trans shown) some
  | broken => exact ⟨h.store, nofun, nofun, nofun, nofun, nofun⟩
  | stepped => exact h.step stage
  | answered awaits => exact nomatch stage.symm.trans awaits

/-- So do several. -/
theorem calls (h : m.Passes ticks m') (reachable : Reachable c m') (shown : m.output = [])
    (within : m'.Within ks) : m.Passes (ticks + ks.countP HostCall.isService) (m'.calls ks) := by
  induction ks generalizing m' ticks with
  | nil => exact h
  | cons k ks ih =>
    obtain ⟨underway, single, rest⟩ := within
    have next := ih (h.call reachable shown underway single) (reachable.call k) rest
    rwa [Nat.add_assoc, Nat.add_comm (ite _ _ _), ← List.countP_cons] at next

end Passes

/-- The search that finds no instruction begins to pass the line. -/
theorem passes_passed (m : Machine) :
    m.Passes 0 ({ m.settled with session := { m.session with flow := m.flowPast } }.enter
      (.advance none none)) :=
  ⟨rfl, fun _ => rfl, fun _ => rfl, fun _ => rfl, fun _ => rfl, fun _ => rfl⟩

/-! ## Footprints -/

/-- **An instruction changes the lines it touches, and no others**: its own,
whose label is terminated, that of its first operand, and those its command
reaches. So it is from the search that finds it to the write of its result,
whatever the host does meanwhile, as long as it writes to no line itself. A
line that is skipped or carries no command has its label terminated; while the
script runs on, the session is as it was but for the skipping, the board but
for the ticks of the timer, and nothing is printed. -/
theorem instruction_footprint (reachable : Reachable c m) (stage : m.stage = .search)
    (unbroken : m.interrupted = false) (begins : m.cycle = (none, m')) (within : m'.Within ks) :
    (∀ line, line ≠ m.line → m.settled.store.slots[line]? = m.store.slots[line]?) ∧
    (∀ i, m.instruction? = some i → ∀ line, ¬ m.settled.Touches i line →
      (m'.calls ks).store.slots[line]? = m.settled.store.slots[line]?) ∧
    (m.session.flow.isSkipping = true ∨ m.store.command? m.line = none →
      (m'.calls ks).store = m.settled.store ∧
      ((m'.calls ks).running = true →
        (m'.calls ks).session = { m.session with flow := m.flowPast } ∧
        (m'.calls ks).board = Board.service^[ks.countP HostCall.isService] m.board ∧
        (m'.calls ks).output = m.output ∧ (m'.calls ks).random = m.random)) := by
  have settled : ∀ line, line ≠ m.line →
      m.settled.store.slots[line]? = m.store.slots[line]? := by
    intro line other
    rw [Machine.settled, Store.getElem?_terminateLabel, if_neg other]
  -- without a break to obey, a cycle that tells nothing is a step, here the search
  have searched : m.output = [] ∧ m' = m.step := by
    have cycled := m.cycled
    rw [begins] at cycled
    cases cycled with
    | broken _ _ _ broken => exact absurd (unbroken.symm.trans broken) (by decide)
    | step shown => exact ⟨shown, rfl⟩
  have next : Reachable c m' := by
    have call := reachable.call (.execute 1)
    rwa [call_execute_one, begins] at call
  refine ⟨settled, ?_⟩
  have stepped := m.stepped
  rw [← searched.2] at stepped
  cases stepped with
  | past _ past =>
    have inside := reachable.sound.inside (by rw [stage]; decide)
    exact absurd past (Nat.not_le.2 inside)
  | found _ _ found =>
    refine ⟨fun i same => ?_, fun none => ?_⟩
    · obtain rfl := Option.some.inj (found.symm.trans same)
      exact ((confined_found m _).calls next rfl within).kept
    · rw [instruction?_eq_none_iff.2 none] at found
      cases found
  | passed _ _ none =>
    refine ⟨fun i some => ?_, fun _ => ?_⟩
    · rw [none] at some
      cases some
    · have passes := m.passes_passed.calls next searched.1 within
      rw [Nat.zero_add] at passes
      exact ⟨passes.store, fun running => ⟨passes.session running, passes.board running,
        passes.output running, passes.random running⟩⟩
  | read other | performed other | advanced other | awaits other | slept other | woken other
  | ended other => exact nomatch stage.symm.trans other

/-- A line that asks for input changes the line of its answer and the input line. -/
theorem instruction_footprint_input :
    ∃ m m', Reachable { lines := 6, row := 16 } m ∧ m.cycle = (none, m') ∧
      m.instruction?.map Instruction.command = some .input ∧
      let after := m'.calls [.execute 1, .execute 1, .service, .receive "hi".toList, .execute 1]
      after.store.line 3 = "hi".toList ∧ after.stage.phase = .search ∧
      ∀ line, line ≠ 3 → line ≠ 5 → after.store.slots[line]? = m.settled.store.slots[line]? := by
  have made := @Reachable.new { lines := 6, row := 16 } { clock := .stepped 0 } default _ rfl
  have reached := made.calls [.receive "input @3".toList, .receive "run".toList]
  generalize stands : Machine.calls _ _ = m at reached
  have stage : m.stage = .search := by
    rw [← stands]
    rfl
  have unbroken : m.interrupted = false := by
    rw [← stands]
    rfl
  have silent : m.cycle.1 = none := by
    rw [← stands]
    rfl
  have found : m.instruction?.map (fun i => (i.command, i.operands)) =
      some (.input, [.line 3]) := by
    rw [← stands]
    decide +kernel
  have slot : m.settled.store.inputSlot = 5 := by
    rw [← stands]
    decide +kernel
  have within : m.cycle.2.Within
      [.execute 1, .execute 1, .service, .receive "hi".toList, .execute 1] := by
    rw [← stands]
    decide +kernel
  have written : (m.cycle.2.calls [.execute 1, .execute 1, .service, .receive "hi".toList,
      .execute 1]).store.line 3 = "hi".toList := by
    rw [← stands]
    decide +kernel
  obtain ⟨i, decoded, parts⟩ := Option.map_eq_some_iff.1 found
  obtain ⟨input, operands⟩ := Prod.mk.inj parts
  have begins : m.cycle = (none, m.cycle.2) := Prod.ext silent rfl
  obtain ⟨-, kept, -⟩ := instruction_footprint reached stage unbroken begins within
  refine ⟨m, m.cycle.2, reached, begins, by rw [decoded, Option.map_some, input], written, ?_,
    fun line three five => kept i decoded line ?_⟩
  · rw [← stands]
    rfl
  · rintro (result | reaches)
    · rw [Instruction.destination, operands] at result
      exact three (Option.some.inj result).symm
    · unfold Reaches at reaches
      rw [input, slot] at reaches
      exact five reaches

end Machine

end LineScript
