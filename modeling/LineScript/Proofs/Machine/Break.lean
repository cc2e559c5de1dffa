import LineScript.Proofs.Machine.Calls
/-!
# Breaks

A break is a flag that a cycle obeys once nothing waits to be shown. A machine
that runs then only ends its run: whatever it was doing, it does nothing of it
any more, and tells what it had to show, the script, and that nothing runs
(`break_ends_run`).

A machine that does not run forgets the break, at its next cycle with nothing
to show. Until then the flag stands. It is of no consequence to anything but
a run, not even to the editor's `clear`, which is about to end by itself
(`idle_break_harmless`); but a run that is started while it stands is ended
before its first line (`idle_break_ends_run`).
-/

namespace LineScript

namespace Machine

variable {m m' : Machine} {e : Event}

/-! ## What is yet to be told -/

/-- What waits to be shown, in the order in which it is shown. -/
def pending (m : Machine) : List Event :=
  (if m.output = [] then [] else [.print m.output]) ++ m.listing.toList.map .list

/-- What a machine tells whose run is over or about to be ended. -/
def ending (m : Machine) : List Event :=
  m.pending ++ if m.running then [.list m.store.listing] else []

/-- The same, with so many more times that nothing runs. -/
def endingThen (m : Machine) (n : Nat) : List Event := m.ending ++ List.replicate n .stopped

theorem endingThen_prefix_succ (m : Machine) (n : Nat) : m.endingThen n <+: m.endingThen (n + 1) := by
  rw [endingThen, endingThen, List.replicate_succ', ← List.append_assoc]
  exact List.prefix_append _ _

/-- A cycle always tells more than that the cycles are used up. -/
theorem Cycled.told (h : Cycled m (some e) m') : (Reply.event e).told? = some e := by
  cases h <;> rfl

/-! ## A run that is broken off -/

/-- A break awaits what runs. -/
def Broken (m : Machine) : Prop := m.running = true → m.interrupted = true

/-- The second machine is the first some time after the break, with the same
lines, devices and random numbers. -/
structure Ended (m m' : Machine) : Prop where
  broken : m'.Broken
  running : m'.running = true → m.running = true
  store : m'.store = m.store
  /-- Only arrays are given back. -/
  board : m'.board = { m.board with heap := m'.board.heap }
  random : m'.random = m.random

theorem Ended.trans {m'' : Machine} (h : m.Ended m') (h' : m'.Ended m'') : m.Ended m'' where
  broken := h'.broken
  running runs := h.running (h'.running runs)
  store := h'.store.trans h.store
  board := by
    have first := h.board
    have second := h'.board
    rw [first] at second
    exact second
  random := h'.random.trans h.random

namespace Broken

theorem ended (h : m.Broken) : m.Ended m := ⟨h, id, rfl, rfl, rfl⟩

/-- A cycle shows something, or it ends the run. -/
theorem cycle (h : m.Broken) {told : Option Event} (c : Cycled m told m') : m.Ended m' := by
  cases c with
  | print | list => exact ⟨h, id, rfl, rfl, rfl⟩
  | stopped _ _ rests =>
    exact ⟨fun runs => absurd (rests.symm.trans runs) nofun, id, rfl, rfl, rfl⟩
  | broken => exact ⟨nofun, nofun, rfl, rfl, rfl⟩
  | input => exact h.ended
  | step _ _ runs quiet => exact absurd (quiet.symm.trans (h runs)) nofun

/-- What a cycle tells comes next in what is yet to be told. -/
theorem cycle_told (h : m.Broken) (c : Cycled m (some e) m') (n : Nat) :
    e :: m'.endingThen n <+: m.endingThen (n + 1) := by
  cases c with
  | print printed =>
    have next : m.endingThen n = .print m.output :: { m with output := [] }.endingThen n := by
      simp [endingThen, ending, pending, printed]
    exact next ▸ m.endingThen_prefix_succ n
  | @list l shown listing =>
    have next : m.endingThen n = .list l :: { m with listing := none }.endingThen n := by
      simp [endingThen, ending, pending, shown, listing]
    exact next ▸ m.endingThen_prefix_succ n
  | stopped shown listing rests =>
    have none : m.ending = [] := by simp [ending, pending, shown, listing, rests]
    have after : { m with interrupted := false }.ending = [] := none
    rw [endingThen, endingThen, none, after, List.replicate_succ]
    exact List.prefix_rfl
  | input _ _ runs quiet => exact absurd (quiet.symm.trans (h runs)) nofun

/-- A cycle that tells nothing is the one that ends the run. -/
theorem cycle_silent (h : m.Broken) (c : Cycled m none m') :
    m.running = true ∧ m'.running = false ∧ m'.ending = m.ending ∧ m.obey.stage = .terminate := by
  cases c with
  | broken shown listing runs broken =>
    refine ⟨runs, rfl, ?_, ?_⟩
    · simp [ending, pending, terminate, shown, listing, runs]
    · simp [obey, runs, broken]
  | step _ _ runs quiet => exact absurd (quiet.symm.trans (h runs)) nofun

/-- While the machine runs on, a cycle shows something. -/
theorem cycle_runs (h : m.Broken) {told : Option Event} (c : Cycled m told m')
    (runs : m'.running = true) : m.pending.length = m'.pending.length + 1 := by
  cases c with
  | print printed => simp [pending, printed]
  | list shown listing => simp [pending, shown, listing]
  | stopped _ _ rests => exact absurd (rests.symm.trans runs) nofun
  | broken => exact absurd runs nofun
  | input _ _ running quiet => exact absurd (quiet.symm.trans (h running)) nofun
  | step _ _ running quiet => exact absurd (quiet.symm.trans (h running)) nofun

/-! ### Calls -/

theorem execute (h : m.Broken) (cycles : Nat) : m.Ended (m.execute cycles).2 := by
  induction cycles generalizing m with
  | zero => exact h.ended
  | succ cycles ih =>
    have cycled := m.cycled
    rcases made : m.cycle with ⟨_ | e, m'⟩
    · rw [made] at cycled
      rw [execute_succ_of_silent cycles made]
      exact (h.cycle cycled).trans (ih (h.cycle cycled).broken)
    · rw [made] at cycled
      rw [execute_succ_of_told cycles made]
      exact h.cycle cycled

/-- A call tells what comes next, unless its last cycle is the one that ends the run. -/
theorem execute_told (h : m.Broken) {cycles : Nat} (pos : 1 ≤ cycles) :
    (∃ e, (Reply.event (m.execute cycles).1).told? = some e ∧
      ∀ n, e :: (m.execute cycles).2.endingThen n <+: m.endingThen (n + 1)) ∨
    ((m.execute cycles).1 = .running ∧ m.running = true ∧ (m.execute cycles).2.running = false ∧
      (m.execute cycles).2.ending = m.ending) := by
  induction cycles generalizing m with
  | zero => exact absurd pos (by decide)
  | succ cycles ih =>
    have cycled := m.cycled
    rcases made : m.cycle with ⟨_ | e, m'⟩
    · rw [made] at cycled
      obtain ⟨runs, rests, same, -⟩ := h.cycle_silent cycled
      rw [execute_succ_of_silent cycles made]
      cases cycles with
      | zero => exact .inr ⟨rfl, runs, rests, same⟩
      | succ cycles =>
        rcases ih (h.cycle cycled).broken (Nat.succ_pos cycles) with ⟨e, told, next⟩ | ⟨-, again, -⟩
        · refine .inl ⟨e, told, fun n => ?_⟩
          have whole : m'.endingThen (n + 1) = m.endingThen (n + 1) :=
            congrArg (· ++ List.replicate (n + 1) Event.stopped) same
          exact whole ▸ next n
        · exact absurd (rests.symm.trans again) nofun
    · rw [made] at cycled
      rw [execute_succ_of_told cycles made]
      exact .inl ⟨e, cycled.told, h.cycle_told cycled⟩

/-- While the machine runs on, every call shows something. -/
theorem execute_runs (h : m.Broken) {cycles : Nat} (pos : 1 ≤ cycles)
    (runs : (m.execute cycles).2.running = true) :
    m.pending.length = (m.execute cycles).2.pending.length + 1 := by
  obtain ⟨cycles, rfl⟩ := Nat.exists_eq_succ_of_ne_zero (Nat.pos_iff_ne_zero.1 pos)
  have cycled := m.cycled
  rcases made : m.cycle with ⟨_ | e, m'⟩
  · rw [made] at cycled
    rw [execute_succ_of_silent cycles made] at runs
    have rests := (h.cycle_silent cycled).2.1
    exact absurd (rests.symm.trans (((h.cycle cycled).broken.execute cycles).running runs)) nofun
  · rw [made] at cycled
    rw [execute_succ_of_told cycles made] at runs ⊢
    exact h.cycle_runs cycled runs

theorem stagesOf (h : m.Broken) (cycles : Nat) : ∀ s ∈ stagesOf cycles m, s = .terminate := by
  induction cycles generalizing m with
  | zero => exact fun _ mem => absurd mem List.not_mem_nil
  | succ cycles ih =>
    have cycled := m.cycled
    unfold Machine.stagesOf
    rcases made : m.cycle with ⟨_ | e, m'⟩
    · rw [made] at cycled
      have ended := (h.cycle_silent cycled).2.2.2
      intro s mem
      rcases List.mem_cons.1 mem with rfl | later
      · exact ended
      · exact ih (h.cycle cycled).broken s later
    · exact fun _ mem => absurd mem List.not_mem_nil

/-! ### Hosts that only execute -/

theorem stagesIn (h : m.Broken) (cycles : List Nat) : ∀ s ∈ stagesIn cycles m, s = .terminate := by
  induction cycles generalizing m with
  | nil => exact fun _ mem => absurd mem List.not_mem_nil
  | cons n rest ih =>
    intro s mem
    rcases List.mem_append.1 mem with first | later
    · exact h.stagesOf n s first
    · exact ih (h.execute n).broken s later

theorem executes (h : m.Broken) (cycles : List Nat) : m.Ended (m.calls (cycles.map .execute)) := by
  induction cycles generalizing m with
  | nil => exact h.ended
  | cons n rest ih => exact (h.execute n).trans (ih (h.execute n).broken)

/-- So the run is over when there is nothing left to show. -/
theorem executes_runs (h : m.Broken) {cycles : List Nat} (pos : ∀ n ∈ cycles, 1 ≤ n)
    (runs : (m.calls (cycles.map .execute)).running = true) : cycles.length ≤ m.pending.length := by
  induction cycles generalizing m with
  | nil => exact Nat.zero_le _
  | cons n rest ih =>
    have broken := (h.execute n).broken
    have left := ih broken (fun k mem => pos k (List.mem_cons_of_mem n mem)) runs
    have shown := h.execute_runs (pos n List.mem_cons_self) ((broken.executes rest).running runs)
    rw [List.length_cons]
    omega

/-- What is told is the first part of what is yet to be told, and at most one
call, while the machine runs, tells nothing. -/
theorem told_executes (h : m.Broken) {cycles : List Nat} (pos : ∀ n ∈ cycles, 1 ≤ n) :
    let told := (m.replies (cycles.map .execute)).filterMap Reply.told?
    told <+: m.endingThen cycles.length ∧
      cycles.length ≤ told.length + if m.running then 1 else 0 := by
  dsimp only
  induction cycles generalizing m with
  | nil => exact ⟨List.nil_prefix, Nat.zero_le _⟩
  | cons n rest ih =>
    obtain ⟨first, le⟩ := ih (h.execute n).broken fun k mem => pos k (List.mem_cons_of_mem n mem)
    rw [List.map_cons, replies, List.length_cons]
    simp only [call]
    rcases h.execute_told (pos n List.mem_cons_self) with
      ⟨e, told, next⟩ | ⟨silent, runs, rests, same⟩
    · rw [List.filterMap_cons_some told, List.length_cons]
      refine ⟨((List.cons_prefix_cons).2 ⟨rfl, first⟩).trans (next _), ?_⟩
      have ends := (h.execute n).running
      grind
    · rw [List.filterMap_cons_none (by rw [silent]; rfl)]
      have whole : (m.execute n).2.endingThen rest.length = m.endingThen rest.length :=
        congrArg (· ++ List.replicate rest.length Event.stopped) same
      refine ⟨(whole ▸ first).trans (m.endingThen_prefix_succ _), ?_⟩
      rw [rests] at le
      simpa [runs] using le

end Broken

theorem broken_interrupt (m : Machine) : m.interrupt.Broken := fun _ => rfl

/-- **A break ends a run at once**, whatever the machine is doing, for a host
that goes on executing: no stage is done but the last one, no line, device or
random number changes, and what is told is what had to be shown, the script,
and that nothing runs. -/
theorem break_ends_run (running : m.running = true) (cycles : List Nat) (pos : ∀ n ∈ cycles, 1 ≤ n) :
    let ks := cycles.map HostCall.execute
    let told := (m.interrupt.replies ks).filterMap Reply.told?
    let whole := m.pending ++ [.list m.store.listing, .stopped]
    (∀ s ∈ stagesIn cycles m.interrupt, s = .terminate) ∧
    (m.interrupt.calls ks).store = m.store ∧
    (m.interrupt.calls ks).board = { m.board with heap := (m.interrupt.calls ks).board.heap } ∧
    (m.interrupt.calls ks).random = m.random ∧
    told <+: whole ++ List.replicate cycles.length .stopped ∧
    (whole.length < cycles.length → whole <+: told ∧ (m.interrupt.calls ks).running = false) := by
  intro ks told whole
  have broken := m.broken_interrupt
  have ended := broken.executes cycles
  have rest : whole ++ List.replicate cycles.length .stopped =
      m.interrupt.endingThen (cycles.length + 1) := by
    have ends : m.interrupt.ending = m.pending ++ [.list m.store.listing] := by
      rw [ending, show m.interrupt.running = true from running, if_pos rfl]
      rfl
    rw [endingThen, ends, List.replicate_succ, List.append_assoc, List.append_assoc]
    rfl
  obtain ⟨first, le⟩ := broken.told_executes pos
  have first := first.trans (m.interrupt.endingThen_prefix_succ cycles.length)
  refine ⟨broken.stagesIn cycles, ended.store, ended.board, ended.random, rest ▸ first,
    fun many => ⟨?_, ?_⟩⟩
  · -- both are first parts of what is yet to be told, and enough calls tell something
    refine List.prefix_of_prefix_length_le (List.prefix_append _ _) (rest ▸ first) ?_
    rw [show m.interrupt.running = true from running, if_pos rfl] at le
    exact Nat.le_of_lt_succ (Nat.lt_of_lt_of_le many le)
  · rw [Bool.eq_false_iff]
    intro runs
    have few : cycles.length ≤ m.pending.length := broken.executes_runs pos runs
    have more : whole.length = m.pending.length + 2 := List.length_append
    omega

/-- It does so with text that was printed and not shown, in the middle of an
instruction. The line that was entered is not a line of the script. -/
theorem break_ends_run_printed :
    ∃ m, Reachable { lines := 4, row := 16 } m ∧ m.running = true ∧ m.stage.phase = .advance ∧
      m.store.listing.lines = [(1, "print 'a".toList)] ∧ m.store.line 3 = "run".toList ∧
      (m.interrupt.calls [.execute 1, .execute 1, .execute 1, .execute 1]).store = m.store ∧
      [.print "a".toList, .list m.store.listing, .stopped] <+:
        (m.interrupt.replies [.execute 1, .execute 1, .execute 1, .execute 1]).filterMap Reply.told? ∧
      (m.interrupt.calls [.execute 1, .execute 1, .execute 1, .execute 1]).running = false := by
  have reached := (@Reachable.new { lines := 4, row := 16 } { clock := .stepped 0 } default _ rfl).calls
    [.write 1 "print 'a".toList, .receive "run".toList, .execute 3]
  generalize stands : Machine.calls _ _ = m at reached
  have running : m.running = true := by
    rw [← stands]
    decide +kernel
  have phase : m.stage.phase = .advance := by
    rw [← stands]
    decide +kernel
  have output : m.output = "a".toList := by
    rw [← stands]
    decide +kernel
  have lines : m.store.listing.lines = [(1, "print 'a".toList)] ∧ m.store.line 3 = "run".toList := by
    rw [← stands]
    decide +kernel
  have listing : m.listing = none := by
    rw [← stands]
    rfl
  have pending : m.pending = [.print "a".toList] := by
    rw [Machine.pending, output, listing]
    rfl
  obtain ⟨-, store, -, -, -, ends⟩ := break_ends_run running [1, 1, 1, 1] (by decide)
  rw [pending] at ends
  obtain ⟨told, stopped⟩ := ends (Nat.lt_succ_self 3)
  exact ⟨m, reached, running, phase, lines.1, lines.2, store, told, stopped⟩

/-! ## Breaks that find nothing running -/

/-- Whether the calls start no run while a break stands. -/
def SparesRuns : (m : Machine) → List HostCall → Prop
  | _, [] => True
  | m, k :: rest => (m.interrupted = true → ¬ m.StartsRun k) ∧ SparesRuns (m.call k).2 rest

/-- Nothing runs, or the run is about to be ended in any case. -/
def Idle (m : Machine) : Prop := m.running = false ∨ m.stage = .terminate

/-- The second machine is the first, or would be but for a break that finds nothing to end. -/
def Unaware (m m' : Machine) : Prop := m' = m ∨ m' = m.interrupt ∧ m.Idle

/-- **A cycle of an idle machine is the same under a break.** -/
theorem cycle_interrupt (idle : m.Idle) :
    m.interrupt.cycle.1 = m.cycle.1 ∧ m.cycle.2.Unaware m.interrupt.cycle.2 := by
  obtain ⟨config, store, session, board, random, line, stage, output, running, cursor, listing,
    interrupted⟩ := m
  match output, listing, running, interrupted with
  | _ :: _, _, _, _ | [], some _, _, _ => exact ⟨rfl, .inr ⟨rfl, idle⟩⟩
  | [], none, false, true | [], none, false, false => exact ⟨rfl, .inl rfl⟩
  | [], none, true, true | [], none, true, false =>
    -- the break asks for what the next step does anyway
    rcases idle with rests | ends
    · exact absurd rests nofun
    · obtain rfl : stage = .terminate := ends
      exact ⟨rfl, .inl rfl⟩

theorem execute_interrupt (idle : m.Idle) (cycles : Nat) :
    (m.interrupt.execute cycles).1 = (m.execute cycles).1 ∧
      (m.execute cycles).2.Unaware (m.interrupt.execute cycles).2 := by
  induction cycles generalizing m with
  | zero => exact ⟨rfl, .inr ⟨rfl, idle⟩⟩
  | succ cycles ih =>
    obtain ⟨told, unaware⟩ := cycle_interrupt idle
    rcases made : m.cycle with ⟨_ | e, m'⟩
    · rw [made] at told unaware
      have made' : m.interrupt.cycle = (none, m.interrupt.cycle.2) := Prod.ext told rfl
      rw [execute_succ_of_silent cycles made, execute_succ_of_silent cycles made']
      obtain same | ⟨flagged, idle⟩ := unaware
      · rw [same]
        exact ⟨rfl, .inl rfl⟩
      · rw [flagged]
        exact ih idle
    · rw [made] at told unaware
      have made' : m.interrupt.cycle = (some e, m.interrupt.cycle.2) := Prod.ext told rfl
      rw [execute_succ_of_told cycles made, execute_succ_of_told cycles made']
      exact ⟨rfl, unaware⟩

theorem moveCursor_interrupt (m : Machine) (number : Option Nat) :
    m.interrupt.moveCursor number = (m.moveCursor number).interrupt := by
  cases number with
  | none => rfl
  | some n => exact (apply_ite interrupt (1 ≤ n ∧ n ≤ m.lastLine) { m with cursor := n } m).symm

/-- The editor does not look for a break. -/
theorem edit_interrupt (m : Machine) (e : Edit) : m.interrupt.edit e = (m.edit e).interrupt := by
  cases e with
  | set number => exact moveCursor_interrupt m number.toNat?
  | run | clear | list | insert | delete | write => rfl

/-- Only a run makes an idle machine busy. -/
theorem Idle.edit (rests : m.running = false) {e : Edit} (other : e ≠ .run) : (m.edit e).Idle := by
  by_cases clear : e = .clear
  · rw [clear]
    exact .inr rfl
  · obtain ⟨store, cursor, listing, same⟩ := m.edit_eq other clear
    rw [same]
    exact .inl rests

theorem receive_interrupt (idle : m.Idle) (t : Text) (spares : ¬ m.StartsRun (.receive t)) :
    (m.interrupt.receive t).1 = (m.receive t).1 ∧
      (m.receive t).2.Unaware (m.interrupt.receive t).2 := by
  by_cases clean : breakChar ∈ t
  · rw [receive_of_break clean, receive_of_break clean]
    exact ⟨rfl, .inl rfl⟩
  · cases running : m.running with
    | false =>
      rw [receive_of_stopped clean running, receive_of_stopped (m := m.interrupt) clean running]
      refine ⟨rfl, .inr ⟨edit_interrupt (m.noting t) _, ?_⟩⟩
      exact Idle.edit (m := m.noting t) running fun run => spares ⟨running, clean, run⟩
    | true =>
      have busy : ∀ prompt destination, m.stage ≠ .awaiting prompt destination := by
        rw [idle.resolve_left (by simp [running])]
        exact fun _ _ => nofun
      rw [receive_of_busy clean running busy, receive_of_busy (m := m.interrupt) clean running busy]
      exact ⟨rfl, .inr ⟨rfl, idle⟩⟩

/-- **A call that starts no run is the same under a break.** -/
theorem call_interrupt (idle : m.Idle) (k : HostCall) (spares : ¬ m.StartsRun k) :
    (m.interrupt.call k).1 = (m.call k).1 ∧ (m.call k).2.Unaware (m.interrupt.call k).2 := by
  cases k with
  | receive t =>
    obtain ⟨used, unaware⟩ := receive_interrupt idle t spares
    exact ⟨congrArg Reply.received used, unaware⟩
  | execute cycles =>
    obtain ⟨told, unaware⟩ := execute_interrupt idle cycles
    exact ⟨congrArg Reply.event told, unaware⟩
  | interrupt => exact ⟨rfl, .inl rfl⟩
  | service | change c => exact ⟨rfl, .inr ⟨rfl, idle⟩⟩

/-- Nor do several calls that start no run find a difference. -/
theorem calls_interrupt (idle : m.Idle) (ks : List HostCall) (spares : m.interrupt.SparesRuns ks) :
    m.interrupt.replies ks = m.replies ks ∧ (m.calls ks).Unaware (m.interrupt.calls ks) := by
  induction ks generalizing m with
  | nil => exact ⟨rfl, .inr ⟨rfl, idle⟩⟩
  | cons k rest ih =>
    obtain ⟨first, later⟩ := spares
    obtain ⟨reply, unaware⟩ := call_interrupt idle k (first rfl)
    rw [replies, replies, calls_cons, calls_cons, reply]
    obtain same | ⟨flagged, idle⟩ := unaware
    · rw [same]
      exact ⟨rfl, .inl rfl⟩
    · rw [flagged] at later ⊢
      obtain ⟨replies, unaware⟩ := ih idle later
      exact ⟨congrArg _ replies, unaware⟩

/-- **A break that finds nothing running is harmless as long as no run is
started before it is forgotten**: all calls are answered, and leave the lines,
as without it. To enter a text with a break in it is the same. -/
theorem idle_break_harmless (rests : m.running = false) (ks : List HostCall)
    (spares : m.interrupt.SparesRuns ks) :
    m.interrupt.replies ks = m.replies ks ∧ (m.interrupt.calls ks).store = (m.calls ks).store ∧
      ∀ t, breakChar ∈ t → m.receive t = (false, m.interrupt) := by
  obtain ⟨replies, unaware⟩ := calls_interrupt (.inl rests) ks spares
  refine ⟨replies, ?_, fun t found => receive_of_break found⟩
  obtain same | ⟨flagged, -⟩ := unaware
  · rw [same]
  · rw [flagged]
    rfl

/-- A run may be started once the machine was asked to go on. -/
theorem idle_break_harmless_forgotten :
    ∃ m, Reachable { lines := 4, row := 16 } m ∧ m.running = false ∧
      m.interrupt.replies [.execute 1, .receive "run".toList, .execute 9] =
        m.replies [.execute 1, .receive "run".toList, .execute 9] := by
  have reached := (@Reachable.new { lines := 4, row := 16 } { clock := .stepped 0 } default _ rfl).calls
    [.write 1 "print 'a".toList]
  generalize stands : Machine.calls _ _ = m at reached
  have rests : m.running = false := by
    rw [← stands]
    rfl
  have forgotten : (m.interrupt.call (.execute 1)).2.interrupted = false := by
    rw [← stands]
    rfl
  have spares : m.interrupt.SparesRuns [.execute 1, .receive "run".toList, .execute 9] :=
    And.intro (fun _ => nofun)
      (And.intro (fun stands => absurd (forgotten.symm.trans stands) nofun)
        (And.intro (fun _ => nofun) trivial))
  exact ⟨m, reached, rests, (idle_break_harmless rests _ spares).1⟩

/-- The text that a reply prints. -/
def printed? : Reply → Option Text
  | .event (.print t) => some t
  | _ => none

/-- **A break that was not forgotten is not harmless.** A run that is started
then is ended before its first line: it neither writes nor prints. -/
theorem idle_break_ends_run :
    ∃ m, Reachable { lines := 5, row := 16 } m ∧ m.running = false ∧
      m.interrupt.replies [.receive "run".toList, .execute 20] ≠
        m.replies [.receive "run".toList, .execute 20] ∧
      (m.interrupt.calls [.receive "run".toList, .execute 20]).store ≠
        (m.calls [.receive "run".toList, .execute 20]).store := by
  have reached := (@Reachable.new { lines := 5, row := 16 } { clock := .stepped 0 } default _ rfl).calls
    [.write 1 "let @3 7".toList, .write 2 "print 'a".toList]
  generalize stands : Machine.calls _ _ = m at reached
  have rests : m.running = false := by
    rw [← stands]
    rfl
  have prints : (m.replies [.receive "run".toList, .execute 20]).map printed? =
      [none, some "a".toList] := by
    rw [← stands]
    decide +kernel
  have silent : (m.interrupt.replies [.receive "run".toList, .execute 20]).map printed? =
      [none, none] := by
    rw [← stands]
    decide +kernel
  have writes : (m.calls [.receive "run".toList, .execute 20]).store.line 3 = "7".toList := by
    rw [← stands]
    decide +kernel
  have keeps : (m.interrupt.calls [.receive "run".toList, .execute 20]).store.line 3 = [] := by
    rw [← stands]
    decide +kernel
  refine ⟨m, reached, rests, fun same => ?_, fun same => ?_⟩
  · rw [same, prints] at silent
    exact absurd silent (by decide)
  · rw [same, writes] at keeps
    exact absurd keeps (by decide)

end Machine

end LineScript
