import LineScript.Proofs.Machine.Calls
import LineScript.Proofs.Machine.Stepped
import LineScript.Proofs.Store.Clean
/-!
# Asking for a line

An instruction that asks for a line, the host that enters one, and the write
of that line take turns. `Exchange` says how far they have come and
`Exchange.Next` what may happen there; whatever a host does, and in whatever
order, what happens keeps to it (`input_handshake`). So an instruction takes
one line at most, what is taken is written once, before the next instruction is
searched, and a break comes in between at the most.
-/

namespace LineScript

/-- Whether a command asks for a line. -/
def Command.asks : Command → Bool
  | input | read => true
  | _ => false

/-- Whether an effect is to ask for a line. -/
def Effect.asks : Effect → Bool
  | ask _ => true
  | _ => false

theorem Stage.isAwaiting_of_phase {s : Stage} (h : s.phase = .search ∨ s.phase = .terminate) :
    s.isAwaiting = false := by
  cases s with
  | awaiting => rcases h with h | h <;> cases h
  | _ => rfl

/-! ## The rules -/

/-- What happens between a machine that runs and its host. -/
inductive Happening where
  /-- The machine does the stage it is in. -/
  | stage (m : Machine)
  /-- A break ends the run. -/
  | broken
  /-- A line is entered, and the machine takes it. -/
  | taken (m : Machine) (t : Text)
  /-- A line is entered, and the machine has no use for it. -/
  | ignored (t : Text)

/-- How far an exchange has come. -/
inductive Exchange where
  /-- No line is asked for. -/
  | idle
  /-- An instruction asks for a line. -/
  | asked (i : Instruction)
  /-- A line was taken for it, and is to be written. -/
  | answered (i : Instruction) (t : Text)

namespace Exchange

/-- The machine does the write of an answer, and has nothing more to do for
its instruction. -/
structure Writes (m : Machine) (i : Instruction) (t : Text) : Prop where
  stage : m.stage = .advance (i.destination.map (·, t)) none
  /-- The line that is the first operand receives the text, all of it. -/
  written : ∀ line, i.destination = some line → line < m.store.size →
    m.step.store = m.store.writeIfPresent line t ∧ m.step.store.line line = t
  /-- If it is no line, or there is no such line, nothing is written. -/
  dropped : (∀ line, i.destination = some line → m.store.size ≤ line) → m.step.store = m.store
  done : m.step.stage.phase = .search ∨ m.step.stage.phase = .terminate

/-- **What may happen next in an exchange.** -/
inductive Next : Exchange → Happening → Exchange → Prop where
  /-- Other stages are no part of an exchange. -/
  | other {m : Machine} : (∀ i v, m.stage = .execute i v → i.command.asks = false) →
      Next idle (.stage m) idle
  /-- A command asks for a line. -/
  | asks {m : Machine} {i : Instruction} {v : Sources} : m.stage = .execute i v →
      i.command.asks = true → Next idle (.stage m) (asked i)
  /-- A line is taken, as far as the input line keeps it. -/
  | taken {m : Machine} {i : Instruction} (t : Text) :
      Next (asked i) (.taken m t) (answered i (Slot.kept m.store.row t))
  /-- It is written in the next stage. -/
  | writes {m : Machine} {i : Instruction} {t : Text} : Writes m i t →
      Next (answered i t) (.stage m) idle
  /-- A break ends the exchange. -/
  | broken (x : Exchange) : Next x .broken idle
  /-- Where no line is asked for, none is taken. -/
  | ignored {x : Exchange} (t : Text) : (∀ i, x ≠ asked i) → Next x (.ignored t) x

/-- What may happen, one after another. -/
inductive Follows : Exchange → List Happening → Exchange → Prop where
  | nil (x : Exchange) : Follows x [] x
  | cons {x y z : Exchange} {h : Happening} {hs : List Happening} :
      Next x h y → Follows y hs z → Follows x (h :: hs) z

theorem Follows.append {x y z : Exchange} {hs hs' : List Happening} (first : Follows x hs y)
    (second : Follows y hs' z) : Follows x (hs ++ hs') z := by
  induction first with
  | nil => exact second
  | cons next _ ih => exact .cons next (ih second)

theorem Next.follows {x y : Exchange} {h : Happening} (next : Next x h y) : Follows x [h] y :=
  .cons next (.nil y)

end Exchange

namespace Machine

variable {c : Config} {m m' : Machine} {i : Instruction} {x : Exchange}

/-! ## What happens in calls -/

/-- What happens in a cycle that tells nothing. -/
def happening (m : Machine) : Happening := if m.interrupted then .broken else .stage m

/-- What happens in so many cycles. -/
def happeningsIn : (cycles : Nat) → Machine → List Happening
  | 0, _ => []
  | cycles + 1, m =>
    match m.cycle with
    | (some _, _) => []
    | (none, m') => m.happening :: happeningsIn cycles m'

/-- What happens in a call. -/
def happeningsBy (m : Machine) : HostCall → List Happening
  | .execute cycles => happeningsIn cycles m
  | .receive t =>
    if m.running = false ∨ breakChar ∈ t then []
    else if (m.receive t).1 then [.taken m t] else [.ignored t]
  | .interrupt | .service | .change _ => []

/-- What happens in some calls. -/
def happenings : Machine → List HostCall → List Happening
  | _, [] => []
  | m, k :: ks => m.happeningsBy k ++ happenings (m.call k).2 ks

/-! ## Where an exchange stands -/

/-- The stage of a machine fits an exchange. -/
def Fits (m : Machine) : Exchange → Prop
  | .idle => m.stage.isAwaiting = false
  | .asked i => m.running = true ∧ ∃ prompt, m.stage = .awaiting prompt i.destination
  | .answered i t => m.running = true ∧ m.stage = .advance (i.destination.map (·, t)) none ∧
      Slot.kept m.store.row t = t

/-- It fits as long as the stage stands. -/
theorem Fits.of_same (fits : m.Fits x) (stage : m'.stage = m.stage) (running : m'.running = m.running)
    (row : m'.store.row = m.store.row) : m'.Fits x := by
  cases x with
  | idle => exact (congrArg Stage.isAwaiting stage).trans fits
  | asked i =>
    obtain ⟨runs, prompt, awaits⟩ := fits
    exact ⟨running.trans runs, prompt, stage.trans awaits⟩
  | answered i t =>
    obtain ⟨runs, advances, kept⟩ := fits
    exact ⟨running.trans runs, stage.trans advances, row ▸ kept⟩

/-- **A command asks for a line** if it is one that does. -/
theorem asks_perform (m : Machine) (i : Instruction) (v : Sources) :
    (m.perform i v).1.asks = i.command.asks := by
  unfold perform
  cases i.command with
  | call | branch | pointer | picture =>
    dsimp only
    split <;> rfl
  | _ => rfl

/-- Its stage leads to a wait for its first operand. -/
theorem step_of_asks {v : Sources} (stage : m.stage = .execute i v) (asks : i.command.asks = true) :
    m.step.running = m.running ∧ ∃ prompt, m.step.stage = .awaiting prompt i.destination := by
  have running := (m.framed_perform i v).running
  have effect := (m.asks_perform i v).trans asks
  unfold step
  rw [stage]
  simp only [executeCommand]
  cases same : (m.perform i v).1 with
  | ask prompt => exact ⟨running, prompt, rfl⟩
  | proceed | pause | halt =>
    rw [same] at effect
    cases effect

/-- To go on is not to wait for a line. -/
theorem phase_advance (m : Machine) (write : Option (Nat × Text)) (jump : Option Nat) :
    (m.advance write jump).stage.phase = .search ∨
      (m.advance write jump).stage.phase = .terminate := by
  unfold Machine.advance
  dsimp only
  split
  · exact .inr rfl
  · exact .inl rfl

/-- No other stage leads to a wait for a line. -/
theorem isAwaiting_step (free : m.stage.isAwaiting = false)
    (other : ∀ i v, m.stage = .execute i v → i.command.asks = false) :
    m.step.stage.isAwaiting = false := by
  have stepped := m.stepped
  generalize m.step = m' at stepped
  cases stepped with
  | past | passed | ended => rfl
  | @found i =>
    change i.firstStage.isAwaiting = false
    unfold Instruction.firstStage
    split <;> rfl
  | read =>
    simp only [Machine.enumerate, enter]
    split <;> split <;> rfl
  | @performed i v stage =>
    have effect := (m.asks_perform i v).trans (other i v stage)
    generalize (m.perform i v).1 = done at effect
    cases done with
    | ask prompt => cases effect
    | proceed | pause | halt => rfl
  | advanced => exact Stage.isAwaiting_of_phase (m.phase_advance _ _)
  | awaits | slept => exact free
  | woken => exact Stage.isAwaiting_of_phase (phase_advance _ none none)

/-- **The write of an answer** is done in one stage, which ends the exchange. -/
theorem writes_step {t : Text} (stage : m.stage = .advance (i.destination.map (·, t)) none)
    (kept : Slot.kept m.store.row t = t) : Exchange.Writes m i t := by
  have stepped : m.step = m.advance (i.destination.map (·, t)) none := by
    unfold step
    rw [stage]
  refine ⟨stage, fun line destination inside => ?_, fun outside => ?_, ?_⟩
  · have store : m.step.store = m.store.writeIfPresent line t := by
      rw [stepped, destination]
      rfl
    refine ⟨store, ?_⟩
    rw [store, Store.line_writeIfPresent inside, kept]
  · rw [stepped]
    cases destination : i.destination with
    | none => rfl
    | some line => exact m.store.writeIfPresent_of_le t (outside line destination)
  · rw [stepped]
    exact m.phase_advance _ none

/-- The editor does not wait for a line, unless it did before. -/
theorem isAwaiting_edit (free : m.stage.isAwaiting = false) (e : Edit) :
    (m.edit e).stage.isAwaiting = false := by
  by_cases run : e = .run
  · rw [run]
    rfl
  · by_cases clear : e = .clear
    · rw [clear]
      rfl
    · obtain ⟨store, cursor, listing, same⟩ := m.edit_eq run clear
      rw [same]
      exact free

/-! ## Cycles and calls -/

/-- What a cycle does that tells nothing. -/
theorem Fits.cycle_silent (fits : m.Fits x) (cycled : Cycled m none m') :
    ∃ y, Exchange.Next x m.happening y ∧ m'.Fits y := by
  cases cycled with
  | broken _ _ _ broken =>
    rw [happening, if_pos broken]
    exact ⟨.idle, .broken x, rfl⟩
  | step _ _ runs quiet free =>
    rw [happening, if_neg (Bool.eq_false_iff.1 quiet)]
    -- what was asked for stands: a machine that awaits a line makes no step
    cases x with
    | idle =>
      by_cases asks : ∃ i v, m.stage = .execute i v ∧ i.command.asks = true
      · obtain ⟨i, v, stage, asks⟩ := asks
        obtain ⟨running, awaits⟩ := step_of_asks stage asks
        exact ⟨.asked i, .asks stage asks, running.trans runs, awaits⟩
      · have other : ∀ i v, m.stage = .execute i v → i.command.asks = false :=
          fun i v stage => Bool.eq_false_iff.2 fun yes => asks ⟨i, v, stage, yes⟩
        exact ⟨.idle, .other other, isAwaiting_step fits other⟩
    | asked i =>
      obtain ⟨-, prompt, awaits⟩ := fits
      exact absurd awaits (free prompt i.destination)
    | answered i t =>
      obtain ⟨-, stage, kept⟩ := fits
      have writes := writes_step stage kept
      exact ⟨.idle, .writes writes, Stage.isAwaiting_of_phase writes.done⟩

/-- One that tells something leaves the exchange as it stands. -/
theorem Fits.cycle_told {e : Event} (fits : m.Fits x) (cycled : Cycled m (some e) m') : m'.Fits x := by
  cases cycled with
  | print | list | stopped | input => exact fits.of_same rfl rfl rfl

theorem Fits.execute (fits : m.Fits x) (cycles : Nat) :
    ∃ y, Exchange.Follows x (happeningsIn cycles m) y ∧ (m.execute cycles).2.Fits y := by
  induction cycles generalizing m x with
  | zero => exact ⟨x, .nil x, fits⟩
  | succ cycles ih =>
    have cycled := m.cycled
    unfold happeningsIn
    rcases made : m.cycle with ⟨_ | e, m'⟩
    · rw [made] at cycled
      obtain ⟨y, next, fits'⟩ := fits.cycle_silent cycled
      obtain ⟨z, follows, last⟩ := ih fits'
      rw [execute_succ_of_silent cycles made]
      exact ⟨z, .cons next follows, last⟩
    · rw [made] at cycled
      rw [execute_succ_of_told cycles made]
      exact ⟨x, .nil x, fits.cycle_told cycled⟩

/-- A line is taken where one is asked for, and nowhere else. -/
theorem Fits.receive (h : Reachable c m) (fits : m.Fits x) (t : Text) :
    ∃ y, Exchange.Follows x (m.happeningsBy (.receive t)) y ∧ (m.receive t).2.Fits y := by
  have received := m.received t
  unfold happeningsBy
  dsimp only
  generalize (m.receive t).1 = used, (m.receive t).2 = m' at received
  cases received with
  | broken found =>
    rw [if_pos (.inr found)]
    exact ⟨x, .nil x, fits.of_same rfl rfl rfl⟩
  | edited clean rests =>
    rw [if_pos (.inl rests)]
    cases x with
    | idle => exact ⟨.idle, .nil .idle, isAwaiting_edit (m := m.noting t) fits _⟩
    | asked | answered => exact absurd (rests.symm.trans fits.1) nofun
  | @taken prompt destination clean runs stage =>
    have entered : ¬ (m.running = false ∨ breakChar ∈ t) := by simp [runs, clean]
    rw [if_neg entered, if_pos rfl]
    cases x with
    | idle =>
      have free : m.stage.isAwaiting = false := fits
      rw [stage] at free
      cases free
    | asked i =>
      obtain ⟨-, prompt', awaits⟩ := fits
      obtain ⟨-, rfl⟩ := Stage.awaiting.inj (stage.symm.trans awaits)
      have inside : m.store.inputSlot < m.store.size := by
        have := h.sound.one_lt_inputSlot
        unfold Store.inputSlot at this ⊢
        omega
      have line : (m.noting t).store.line m.store.inputSlot = Slot.kept m.store.row t :=
        Store.line_writeIfPresent inside t
      refine ⟨_, (Exchange.Next.taken t).follows, runs, ?_, Slot.kept_kept _ t⟩
      rw [line]
    | answered i t' =>
      obtain ⟨-, advances, -⟩ := fits
      cases stage.symm.trans advances
  | ignored clean runs busy =>
    have entered : ¬ (m.running = false ∨ breakChar ∈ t) := by simp [runs, clean]
    rw [if_neg entered, if_neg Bool.false_ne_true]
    refine ⟨x, (Exchange.Next.ignored t ?_).follows, fits⟩
    rintro i rfl
    obtain ⟨-, prompt, awaits⟩ := fits
    exact busy prompt i.destination awaits

/-- **What happens in a call** keeps to the rules. -/
theorem Fits.call (h : Reachable c m) (fits : m.Fits x) (k : HostCall) :
    ∃ y, Exchange.Follows x (m.happeningsBy k) y ∧ (m.call k).2.Fits y := by
  cases k with
  | receive t => exact fits.receive h t
  | execute cycles => exact fits.execute cycles
  | interrupt | service => exact ⟨x, .nil x, fits.of_same rfl rfl rfl⟩
  | change change =>
    have shape := (Store.Evolves.apply m.store change).shape
    exact ⟨x, .nil x, fits.of_same rfl rfl shape.row⟩

/-- So does what happens in several. -/
theorem Fits.calls (h : Reachable c m) (fits : m.Fits x) (ks : List HostCall) :
    ∃ y, Exchange.Follows x (m.happenings ks) y ∧ (m.calls ks).Fits y := by
  induction ks generalizing m x with
  | nil => exact ⟨x, .nil x, fits⟩
  | cons k ks ih =>
    obtain ⟨y, now, fits'⟩ := fits.call h k
    obtain ⟨z, later, last⟩ := ih (h.call k) fits'
    exact ⟨z, now.append later, last⟩

/-- **Lines of input are taken as they are asked for.** From a machine that
does not run, whatever the host does keeps to the rules of an exchange; and at
any time, a line that is entered while the machine runs is taken exactly if an
instruction asks for one, and changes nothing if not. A text with a break in
it is a break, and no line. -/
theorem input_handshake (h : Reachable c m) (rests : m.running = false) (ks : List HostCall) :
    ∃ x, Exchange.Follows .idle (m.happenings ks) x ∧
      ∀ t, (breakChar ∈ t → (m.calls ks).receive t = (false, (m.calls ks).interrupt)) ∧
        (breakChar ∉ t → (m.calls ks).running = true →
          (((m.calls ks).receive t).1 = true ↔ ∃ i, x = .asked i) ∧
          (((m.calls ks).receive t).1 = false → ((m.calls ks).receive t).2 = m.calls ks)) := by
  have free : m.Fits .idle := congrArg Stage.isAwaiting (h.sound.stopped rests).1
  obtain ⟨x, follows, fits⟩ := free.calls h ks
  refine ⟨x, follows, fun t => ⟨receive_of_break, fun clean runs => ?_⟩⟩
  generalize m.calls ks = m' at fits runs
  cases x with
  | idle =>
    have busy := receive_of_busy clean runs (Stage.ne_awaiting fits)
    rw [busy]
    exact ⟨⟨nofun, fun ⟨i, asked⟩ => nomatch asked⟩, fun _ => rfl⟩
  | asked i =>
    obtain ⟨-, prompt, awaits⟩ := fits
    rw [receive_of_awaiting clean runs awaits]
    exact ⟨⟨fun _ => ⟨i, rfl⟩, fun _ => rfl⟩, nofun⟩
  | answered i t' =>
    obtain ⟨-, advances, -⟩ := fits
    have busy := receive_of_busy clean runs fun prompt destination awaits =>
      nomatch advances.symm.trans awaits
    rw [busy]
    exact ⟨⟨nofun, fun ⟨i, asked⟩ => nomatch asked⟩, fun _ => rfl⟩

/-- A host that enters the second line too early: it is not taken, and the
script asks for it all the same. -/
theorem input_handshake_twice :
    ∃ m i, Reachable { lines := 6, row := 16 } m ∧ m.running = false ∧
      Exchange.Follows .idle (m.happenings [.receive "run".toList, .execute 9,
        .receive "one".toList, .receive "two".toList, .execute 9]) (.asked i) := by
  have reached := (@Reachable.new { lines := 6, row := 16 } { clock := .stepped 0 } default _ rfl).calls
    [.write 1 "input @3".toList, .write 2 "read @4".toList]
  generalize stands : Machine.calls _ _ = m at reached
  have rests : m.running = false := by
    rw [← stands]
    rfl
  let ks : List HostCall := [.receive "run".toList, .execute 9, .receive "one".toList,
    .receive "two".toList, .execute 9]
  have running : (m.calls ks).running = true := by
    rw [← stands]
    decide +kernel
  have taken : ((m.calls ks).receive "two".toList).1 = true := by
    rw [← stands]
    decide +kernel
  obtain ⟨x, follows, entered⟩ := input_handshake reached rests ks
  obtain ⟨asked, -⟩ := (entered "two".toList).2 (by decide) running
  obtain ⟨i, rfl⟩ := asked.1 taken
  exact ⟨m, i, reached, rests, follows⟩

end Machine

end LineScript
