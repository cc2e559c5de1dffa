import LineScript.Proofs.Machine.Break
import LineScript.Proofs.Machine.Cycle
/-!
# Schedules

A host that only watches executes as many cycles at a time as it likes, with
ticks of the timer and lines that nobody awaits in between. Whatever its
schedule, it sees one sequence of events, and of machines behind them, but for
what the sequencers of the board are playing (`schedule_independent`): a tick
reaches nothing else, no command reads what a sequencer puts out, a line that
is not awaited changes nothing, and a call that stops at its last cycle leaves
the next one where another call would have gone on.
-/

namespace LineScript

/-- Whether a call executes. -/
def HostCall.executes : HostCall → Bool
  | execute _ => true
  | _ => false

namespace Machine

variable {m m' : Machine} {ks ks' : List HostCall}

/-! ## What a tick reaches -/

/-- The machine without what its sequencers play and put out. -/
def muted (m : Machine) : Machine :=
  { m with board := { m.board with gpio := { inputs := m.board.gpio.inputs }, sound := {} } }

/-- A tick only reaches the sequencers. -/
theorem muted_service (m : Machine) : m.service.muted = m.muted := rfl

/-- **No command reads what a sequencer does.** -/
theorem muted_perform (m : Machine) (i : Instruction) (v : Sources) :
    (m.muted.perform i v).1 = (m.perform i v).1 ∧
      (m.muted.perform i v).2.muted = (m.perform i v).2.muted := by
  unfold perform
  cases i.command with
  | compute | bitwise | rand | copy | move | append | extend | countLines | countBytes | jump | ret
  | push | pop | stop | otherwise | endBranch | endLoop | next | leave | print | sleep | input
  | read | setTime | getTime | cursor | array | free | clearGpio | readGpio | clearSound | beat
  | save | load | label | clear => exact ⟨rfl, rfl⟩
  | call | branch | pointer =>
    dsimp only
    split <;> exact ⟨rfl, rfl⟩
  | loop | count =>
    dsimp only [enterLoop]
    split <;> exact ⟨rfl, rfl⟩
  | picture =>
    have array : m.muted.array? (v.number 0) = m.array? (v.number 0) := rfl
    dsimp only
    rw [array]
    split <;> exact ⟨rfl, rfl⟩
  | gpio | sound | interruptSound =>
    have array : m.muted.array? (v.number 0) = m.array? (v.number 0) := rfl
    dsimp only [withArray]
    rw [array]
    split <;> exact ⟨rfl, rfl⟩

/-- So neither does a step. -/
theorem muted_step (m : Machine) : m.muted.step.muted = m.step.muted := by
  cases stage : m.stage with
  | search =>
    rw [step_of_search stage, step_of_search (show m.muted.stage = .search from stage),
      search_eq, search_eq]
    have inside : m.muted.store.inputSlot = m.store.inputSlot := rfl
    have line : m.muted.line = m.line := rfl
    have decoded : m.muted.instruction? = m.instruction? := rfl
    rw [inside, line, decoded]
    split
    · rfl
    · cases m.instruction? <;> rfl
  | execute i v =>
    obtain ⟨effect, performed⟩ := m.muted_perform i v
    unfold step
    rw [show m.muted.stage = m.stage from rfl, stage]
    simp only [executeCommand]
    rw [effect]
    have entered : ∀ stage, ((m.muted.perform i v).2.enter stage).muted =
        ((m.perform i v).2.enter stage).muted :=
      fun stage => congrArg (Machine.enter · stage) performed
    cases (m.perform i v).1 <;> exact entered _
  | sleeping deadline =>
    unfold step
    rw [show m.muted.stage = m.stage from rfl, stage]
    unfold Machine.wake
    have clock : m.muted.board.clock = m.board.clock := rfl
    simp only [clock]
    split <;> rfl
  | enumerate i v | advance write jump | awaiting prompt destination | terminate =>
    unfold step
    rw [show m.muted.stage = m.stage from rfl, stage]
    rfl

/-- Nor a cycle: it tells the same. -/
theorem muted_cycle (m : Machine) :
    m.muted.cycle.1 = m.cycle.1 ∧ m.muted.cycle.2.muted = m.cycle.2.muted := by
  have stepped := m.muted_step
  obtain ⟨config, store, session, board, random, line, stage, output, running, cursor, listing,
    interrupted⟩ := m
  match output, listing, running, interrupted with
  | _ :: _, _, _, _ | [], some _, _, _ | [], none, false, true | [], none, false, false
  | [], none, true, true => exact ⟨rfl, rfl⟩
  | [], none, true, false =>
    cases stage with
    | awaiting => exact ⟨rfl, rfl⟩
    | search | enumerate | execute | advance | sleeping | terminate => exact ⟨rfl, stepped⟩

/-- Machines that differ in nothing else tell the same, and go on so. -/
theorem cycle_of_muted (h : m.muted = m'.muted) :
    m.cycle.1 = m'.cycle.1 ∧ m.cycle.2.muted = m'.cycle.2.muted := by
  obtain ⟨told, after⟩ := m.muted_cycle
  obtain ⟨told', after'⟩ := m'.muted_cycle
  rw [h] at told after
  exact ⟨told.symm.trans told', after.symm.trans after'⟩

/-! ## What a host sees -/

/-- An event, if there is one, and the machine after it. -/
def sighting (event : Option Event) (m : Machine) : List (Event × Machine) :=
  event.toList.map (·, m.muted)

/-- The events of so many cycles, each with the machine after it. -/
def seenIn : (cycles : Nat) → Machine → List (Event × Machine)
  | 0, _ => []
  | cycles + 1, m => sighting m.cycle.1 m.cycle.2 ++ seenIn cycles m.cycle.2

/-- The events that some calls tell, each with the machine after it. -/
def seen : Machine → List HostCall → List (Event × Machine)
  | _, [] => []
  | m, k :: ks => sighting (m.call k).1.told? (m.call k).2 ++ seen (m.call k).2 ks

/-- More cycles add to what is seen. -/
theorem seenIn_add (n n' : Nat) (m : Machine) :
    seenIn (n + n') m = seenIn n m ++ seenIn n' ((fun m => m.cycle.2)^[n] m) := by
  induction n generalizing m with
  | zero => rw [Nat.zero_add, Function.iterate_zero_apply]; rfl
  | succ n ih =>
    rw [Nat.succ_add, seenIn, seenIn, ih, List.append_assoc, Function.iterate_succ_apply]

theorem seenIn_mono {n n' : Nat} (le : n ≤ n') (m : Machine) : seenIn n m <+: seenIn n' m := by
  obtain ⟨more, rfl⟩ := Nat.exists_eq_add_of_le le
  rw [seenIn_add]
  exact List.prefix_append _ _

/-- Machines that differ in their sequencers only look the same. -/
theorem seenIn_of_muted (h : m.muted = m'.muted) (n : Nat) :
    seenIn n m = seenIn n m' ∧
      ((fun m => m.cycle.2)^[n] m).muted = ((fun m => m.cycle.2)^[n] m').muted := by
  induction n generalizing m m' with
  | zero => exact ⟨rfl, h⟩
  | succ n ih =>
    obtain ⟨told, after⟩ := cycle_of_muted h
    obtain ⟨rest, last⟩ := ih after
    rw [seenIn, seenIn, sighting, sighting, told, after, rest]
    exact ⟨rfl, last⟩

/-! ## Hosts that only watch -/

/-- Whether the host only watches: it executes, ticks, or enters a line that
nobody awaits while the machine is busy. -/
def Watches (m : Machine) : HostCall → Prop
  | .execute cycles => 1 ≤ cycles
  | .service => True
  | .receive t => breakChar ∉ t ∧ m.running = true ∧ m.stage.isAwaiting = false
  | .interrupt | .change _ => False

/-- Whether it does so in all of some calls. -/
def OnlyWatches : (m : Machine) → List HostCall → Prop
  | _, [] => True
  | m, k :: ks => m.Watches k ∧ OnlyWatches (m.call k).2 ks

/-- A call that executes makes some cycles, and tells what they do. -/
theorem execute_eq_cycles (cycles : Nat) (m : Machine) :
    ∃ n, (1 ≤ cycles → 1 ≤ n) ∧ (m.execute cycles).2 = (fun m => m.cycle.2)^[n] m ∧
      sighting (Reply.event (m.execute cycles).1).told? (m.execute cycles).2 = seenIn n m := by
  induction cycles generalizing m with
  | zero => exact ⟨0, id, rfl, rfl⟩
  | succ cycles ih =>
    have cycled := m.cycled
    rcases made : m.cycle with ⟨_ | e, m'⟩
    · obtain ⟨n, -, last, same⟩ := ih m'
      refine ⟨n + 1, fun _ => Nat.succ_pos n, ?_, ?_⟩
      · rw [execute_succ_of_silent cycles made, last, Function.iterate_succ_apply, made]
      · rw [execute_succ_of_silent cycles made, same, seenIn, made]
        rfl
    · rw [made] at cycled
      refine ⟨1, fun _ => Nat.le_refl 1, ?_, ?_⟩
      · rw [execute_succ_of_told cycles made, Function.iterate_one, made]
      · rw [execute_succ_of_told cycles made, cycled.told, seenIn, made]
        rfl

/-- **A host that only watches sees what single cycles show**, at least one of
them for each call that executes. -/
theorem seen_eq_seenIn (watches : m.OnlyWatches ks) (h : m.muted = m'.muted) :
    ∃ n, ks.countP HostCall.executes ≤ n ∧ m.seen ks = seenIn n m' := by
  induction ks generalizing m m' with
  | nil => exact ⟨0, Nat.le_refl 0, rfl⟩
  | cons k ks ih =>
    obtain ⟨first, later⟩ := watches
    cases k with
    | execute cycles =>
      obtain ⟨n, pos, last, shown⟩ := m.execute_eq_cycles cycles
      obtain ⟨same, after⟩ := seenIn_of_muted h n
      obtain ⟨n', le, rest⟩ := ih later ((congrArg muted last).trans after)
      have one : 1 ≤ n := pos first
      -- the cycles of this call come first, and the other calls go on behind them
      have counts : HostCall.executes (.execute cycles) = true := rfl
      refine ⟨n + n', ?_, ?_⟩
      · rw [List.countP_cons_of_pos counts]
        omega
      · rw [seen, rest, seenIn_add, ← same, ← shown]
        rfl
    | service => exact ih later (m.muted_service.trans h)
    | receive t =>
      obtain ⟨clean, running, busy⟩ := first
      have ignored : m.call (.receive t) = (.received false, m) := by
        rw [call, receive_of_busy clean running (Stage.ne_awaiting busy)]
      rw [ignored] at later
      rw [seen, ignored]
      exact ih later h
    | interrupt => exact first.elim
    | change c => exact first.elim

/-- A call of one cycle tells what the cycle does. -/
theorem told_execute_one (m : Machine) : (m.call (.execute 1)).1.told? = m.cycle.1 := by
  have cycled := m.cycled
  have reply : (m.call (.execute 1)).1 = .event (m.execute (0 + 1)).1 := rfl
  rw [reply]
  rcases made : m.cycle with ⟨_ | e, m'⟩
  · rw [execute_succ_of_silent 0 made]
    rfl
  · rw [made] at cycled
    rw [execute_succ_of_told 0 made]
    exact cycled.told

/-- So single calls show what single cycles do. -/
theorem seen_replicate (n : Nat) (m : Machine) :
    m.seen (List.replicate n (.execute 1)) = seenIn n m := by
  induction n generalizing m with
  | zero => rfl
  | succ n ih => rw [List.replicate_succ, seen, told_execute_one, call_execute_one, ih, seenIn]

/-- **What a host sees does not depend on its schedule.** Two hosts that only
watch see the same events, printed texts among them, as far as both go on, and
after each of them the same machine but for its sequencers; and a host that
executes often enough sees all that single cycles show. -/
theorem schedule_independent (watches : m.OnlyWatches ks) (watches' : m.OnlyWatches ks') :
    (m.seen ks <+: m.seen ks' ∨ m.seen ks' <+: m.seen ks) ∧
      ∀ n ≤ ks.countP HostCall.executes,
        m.seen (List.replicate n (.execute 1)) <+: m.seen ks := by
  obtain ⟨n, le, same⟩ := seen_eq_seenIn watches rfl
  obtain ⟨n', -, same'⟩ := seen_eq_seenIn watches' rfl
  rw [same, same']
  refine ⟨?_, fun k less => ?_⟩
  · rcases Nat.le_total n n' with less | less
    · exact .inl (seenIn_mono less m)
    · exact .inr (seenIn_mono less m)
  · rw [seen_replicate]
    exact seenIn_mono (Nat.le_trans less le) m

/-- A script that prints and sleeps, under two schedules: with a tick and a line
that nobody awaits, and without. The second goes on for longer. -/
theorem schedule_independent_sleep :
    ∃ m, Reachable { lines := 6, row := 16 } m ∧ m.running = true ∧
      (m.seen [.execute 2, .service, .receive "x".toList, .execute 50]).length = 1 ∧
      (m.seen [.execute 1, .execute 60, .execute 60]).length = 2 ∧
      m.seen [.execute 2, .service, .receive "x".toList, .execute 50] <+:
        m.seen [.execute 1, .execute 60, .execute 60] := by
  have reached := (@Reachable.new { lines := 6, row := 16 } { clock := .stepped 100 } default _ rfl).calls
    [.write 1 "print 'a".toList, .write 2 "sleep 1".toList, .receive "run".toList]
  generalize stands : Machine.calls _ _ = m at reached
  have running : m.running = true := by
    rw [← stands]
    decide +kernel
  have runs : (m.calls [.execute 2, .service]).running = true := by
    rw [← stands]
    decide +kernel
  have busy : (m.calls [.execute 2, .service]).stage.isAwaiting = false := by
    rw [← stands]
    decide +kernel
  have one : (m.seen [.execute 2, .service, .receive "x".toList, .execute 50]).length = 1 := by
    rw [← stands]
    decide +kernel
  have two : (m.seen [.execute 1, .execute 60, .execute 60]).length = 2 := by
    rw [← stands]
    decide +kernel
  have watches : m.OnlyWatches [.execute 2, .service, .receive "x".toList, .execute 50] :=
    ⟨Nat.le_succ 1, trivial, ⟨by decide, runs, busy⟩, Nat.le_add_left 1 49, trivial⟩
  have watches' : m.OnlyWatches [.execute 1, .execute 60, .execute 60] :=
    ⟨Nat.le_refl 1, Nat.le_add_left 1 59, Nat.le_add_left 1 59, trivial⟩
  obtain ⟨shorter | longer, -⟩ := schedule_independent watches watches'
  · exact ⟨m, reached, running, one, two, shorter⟩
  · have le := longer.length_le
    rw [one, two] at le
    exact absurd le (by decide)

end Machine

end LineScript
