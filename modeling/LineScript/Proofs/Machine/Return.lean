import LineScript.Proofs.BoundedStack
import LineScript.Proofs.Machine.Footprint
import Mathlib.Logic.Relation
/-!
# Calls return

Calls and loops share one link stack, and a push on a full stack replaces an
entry. What a machine does to it can be told from its stage and its sources
(`link_perform`), and nothing else that happens in a run touches it
(`Move.link`). So the line of a call stays where it was put as long as no
entry is replaced and the stack does not become shorter (`suffix_entries`),
whatever calls, loops and breaks are on the way, and the `ret` that finds it
on top goes on behind the call (`calls_return`).
-/

namespace LineScript

open BoundedStack (Call)

/-- What an instruction on a line asks of the link stack. -/
def Instruction.linkCall? (i : Instruction) (v : Sources) (line : Nat) : Option (Call Nat) :=
  match i.command with
  | .call => (i.target 0).map fun _ => .push line
  | .loop sides =>
    if v.holds sides (i.operator.getD (.comparison .eq)) then some (.push line) else none
  | .count => if v.unsigned 0 ≤ v.unsigned 1 then some (.push line) else none
  | .ret | .endLoop | .next | .leave => some .pop
  | _ => none

namespace Machine

variable {c : Config} {m m' m'' : Machine} {i : Instruction} {v : Sources}
  {call : Option (Call Nat)}

/-! ## What a move asks of the link stack -/

/-- **A command does to the link stack what it asks for**, and nothing else. -/
theorem link_perform (m : Machine) (i : Instruction) (v : Sources) :
    (m.perform i v).2.session.link =
      (i.linkCall? v m.line).elim m.session.link m.session.link.apply := by
  unfold perform Instruction.linkCall?
  cases i.command with
  | call =>
    dsimp only
    cases i.target 0 <;> rfl
  | loop sides =>
    dsimp only [enterLoop]
    cases v.holds sides (i.operator.getD (.comparison .eq)) <;> rfl
  | count =>
    dsimp only [enterLoop]
    by_cases enters : v.unsigned 0 ≤ v.unsigned 1
    · rw [decide_eq_true enters, if_pos enters]
      rfl
    · rw [decide_eq_false enters, if_neg enters]
      rfl
  | pop =>
    have same := congrArg Session.link (m.session.pop_session m.store)
    exact same
  | branch | pointer | picture =>
    dsimp only
    split <;> rfl
  | gpio | sound | interruptSound =>
    dsimp only [withArray]
    split <;> rfl
  | _ => rfl

/-- What the next cycle asks of the link stack. -/
def linkCall? (m : Machine) : Option (Call Nat) :=
  match m.cycle.1, m.obey.stage with
  | none, .execute i v => i.linkCall? v m.line
  | _, _ => none

/-- **Something that happens to a machine**, with what it asks of the link
stack: a cycle, or a call of the host that makes none. -/
inductive Move (m : Machine) : Option (Call Nat) → Machine → Prop where
  | cycle : Move m m.linkCall? m.cycle.2
  | call (k : HostCall) : (∀ n, k ≠ .execute n) → Move m none (m.call k).2

/-- A step that does not end the run does what its command asks for. -/
theorem link_step (m : Machine) (going : m.step.running = true) :
    m.step.session.link = match m.stage with
      | .execute i v => (i.linkCall? v m.line).elim m.session.link m.session.link.apply
      | _ => m.session.link := by
  have stepped := m.stepped
  generalize m.step = m' at stepped going
  cases stepped with
  | performed stage =>
    rw [stage]
    exact m.link_perform _ _
  | past stage | found stage | passed stage | read stage | advanced stage | slept stage
  | woken stage =>
    rw [stage]
    rfl
  | awaits stage => rw [stage]
  | ended => cases going

/-- Nor does a cycle do anything else. -/
theorem link_cycle (m : Machine) (going : m.cycle.2.running = true) :
    m.cycle.2.session.link = m.linkCall?.elim m.session.link m.session.link.apply := by
  unfold linkCall?
  have cycled := m.cycled
  generalize m.cycle.1 = told, m.cycle.2 = next at cycled going
  cases cycled with
  | print | list | stopped | input => rfl
  | broken => cases going
  | step _ _ _ quiet =>
    rw [obey_of_quiet quiet, m.link_step going]
    cases m.stage <;> rfl

/-- A host that does not execute leaves the session of a run alone, and the
stage as well unless a line is awaited. -/
theorem session_call {k : HostCall} (running : m.running = true) (idle : ∀ n, k ≠ .execute n) :
    (m.call k).2.session = m.session ∧
      ((m.call k).2.stage = m.stage ∨ m.stage.isAwaiting = true) := by
  cases k with
  | execute n => exact absurd rfl (idle n)
  | interrupt | service | change => exact ⟨rfl, .inl rfl⟩
  | receive t =>
    have received := m.received t
    change (m.receive t).2.session = _ ∧ ((m.receive t).2.stage = _ ∨ _)
    generalize (m.receive t).1 = used, (m.receive t).2 = next at received
    cases received with
    | edited _ stopped => exact absurd (running.symm.trans stopped) (by decide)
    | broken | ignored => exact ⟨rfl, .inl rfl⟩
    | taken _ _ stage => exact ⟨rfl, .inr (congrArg Stage.isAwaiting stage)⟩

namespace Move

/-- **What a move asks for is all that becomes of the link stack** while a run goes on. -/
theorem link (move : m.Move call m') (running : m.running = true) (going : m'.running = true) :
    m'.session.link = call.elim m.session.link m.session.link.apply := by
  cases move with
  | cycle => exact m.link_cycle going
  | call k idle => exact congrArg Session.link (session_call running idle).1

/-- A host makes every move by a call. -/
theorem reachable (move : m.Move call m') (reached : Reachable c m) : Reachable c m' := by
  cases move with
  | cycle => exact m.call_execute_one ▸ reached.call (.execute 1)
  | call k => exact reached.call k

end Move

/-! ## What stays on the link stack -/

/-- A move of a run that goes on, which replaces no entry of the link stack
and leaves so many. -/
structure StaysAbove (floor : Nat) (m m' : Machine) : Prop where
  move : ∃ call, m.Move call m' ∧
    ∀ line, call = some (.push line) → m.session.link.isFull = false
  running : m'.running = true
  floor_le : floor ≤ m'.session.link.size

/-- One such move leaves what lies at the bottom. -/
theorem StaysAbove.suffix_entries {bottom : List Nat} (stays : StaysAbove bottom.length m m')
    (reached : Reachable c m) (running : m.running = true)
    (under : bottom <:+ m.session.link.entries) : bottom <:+ m'.session.link.entries := by
  obtain ⟨⟨call, move, room⟩, going, floor⟩ := stays
  have link := move.link running going
  cases call with
  | none => exact link ▸ under
  | some call =>
    have pos : 1 ≤ m.session.link.capacity := by
      rw [reached.sound.session.linkCapacity]
      exact reached.sound.valid.linkDepth_pos
    change m'.session.link = m.session.link.apply call at link
    rw [link, LinkStack.size, LinkStack.entries_apply pos] at floor
    rw [link, LinkStack.entries_apply pos]
    -- a push would have found room
    refine BoundedStack.suffix_apply under (fun line is => ?_) floor
    exact Nat.lt_of_not_le (of_decide_eq_false (room line (congrArg some is)))

/-- **What lies at the bottom stays there**, however long the run goes on so. -/
theorem suffix_entries {bottom : List Nat} (reached : Reachable c m) (running : m.running = true)
    (under : bottom <:+ m.session.link.entries)
    (run : Relation.ReflTransGen (StaysAbove bottom.length) m m') :
    Reachable c m' ∧ m'.running = true ∧ bottom <:+ m'.session.link.entries := by
  induction run with
  | refl => exact ⟨reached, running, under⟩
  | tail _ stays ih =>
    obtain ⟨reached, running, under⟩ := ih
    obtain ⟨_, move, -⟩ := stays.move
    exact ⟨move.reachable reached, stays.running, stays.suffix_entries reached running under⟩

/-- A cycle replaces nothing where there is room. -/
theorem staysAbove_cycle {floor : Nat} (room : m.session.link.isFull = false)
    (running : m.cycle.2.running = true) (floor_le : floor ≤ m.cycle.2.session.link.size) :
    StaysAbove floor m m.cycle.2 where
  move := ⟨m.linkCall?, .cycle, fun _ _ => room⟩
  running := running
  floor_le := floor_le

/-- Nor do several. -/
theorem staysAbove_cycles {floor : Nat} (n : Nat)
    (keeps : ∀ k < n, ((fun m => m.cycle.2)^[k] m).session.link.isFull = false ∧
      ((fun m => m.cycle.2)^[k] m).cycle.2.running = true ∧
      floor ≤ ((fun m => m.cycle.2)^[k] m).cycle.2.session.link.size) :
    Relation.ReflTransGen (StaysAbove floor) m ((fun m => m.cycle.2)^[n] m) := by
  induction n with
  | zero => exact .refl
  | succ n ih =>
    obtain ⟨room, running, floor_le⟩ := keeps n (Nat.lt_succ_self n)
    rw [Function.iterate_succ_apply']
    exact (ih fun k lt => keeps k (Nat.lt_succ_of_lt lt)).tail (staysAbove_cycle room running floor_le)

/-! ## Calls and returns -/

/-- The next cycle carries a command out. -/
def Executes (m : Machine) (i : Instruction) (v : Sources) : Prop :=
  m.stage = .execute i v ∧ m.cycle = (none, m.step)

/-- A move while an instruction is under way, in a run that goes on. -/
structure Proceeds (m m' : Machine) : Prop where
  underway : m.stage.isUnderway = true
  move : ∃ call, m.Move call m'
  running : m'.running = true

namespace Executes

/-- A machine with nothing to show carries out the command it is about to. -/
theorem exists_of_phase (phase : m.stage.phase = .execute) (output : m.output = [])
    (listing : m.listing = none) (quiet : m.interrupted = false) (running : m.running = true) :
    ∃ i v, m.Executes i v ∧ m.stage.instruction? = some i := by
  cases stage : m.stage with
  | execute i v =>
    have free : m.stage.isSuspended = false := congrArg Stage.isSuspended stage
    exact ⟨i, v, ⟨stage, cycle_of_shown output listing quiet running free⟩, rfl⟩
  | search | enumerate | advance | awaiting | sleeping | terminate =>
    rw [stage] at phase
    cases phase

/-- Nothing waits to be shown or obeyed then. -/
theorem quiet (h : m.Executes i v) (running : m.running = true) :
    m.output = [] ∧ m.listing = none ∧ m.interrupted = false := by
  have runs : m.step.running = true := by
    rw [step_of_execute h.1]
    exact (m.framed_perform i v).running.trans running
  have cycled := m.cycled
  rw [h.2] at cycled
  generalize m.step = next at cycled runs
  cases cycled with
  | broken => cases runs
  | step output listing _ interrupted => exact ⟨output, listing, interrupted⟩

/-- **A call puts its line on top.** -/
theorem entries_call (h : m.Executes i v) (command : i.command = .call) {t : Nat}
    (target : i.target 0 = some t) (room : m.session.link.size < m.session.link.capacity) :
    m.step.session.link.entries = m.line :: m.session.link.entries := by
  have asks : i.linkCall? v m.line = some (.push m.line) := by
    unfold Instruction.linkCall?
    rw [command]
    dsimp only
    rw [target]
    rfl
  rw [step_of_execute h.1]
  change (m.perform i v).2.session.link.entries = _
  rw [link_perform, asks]
  exact LinkStack.entries_push room m.line

/-- **A return takes the line on top off**, and goes on behind it. -/
theorem step_ret (h : m.Executes i v) (command : i.command = .ret) {line : Nat} {older : List Nat}
    (entries : m.session.link.entries = line :: older) :
    m.step = { m with
      session := { m.session with link := { m.session.link with entries := older } }
      stage := .advance none (some (line + 1)) } := by
  rw [step_of_execute h.1]
  unfold perform popLink
  rw [command, LinkStack.pop_of_entries entries]
  rfl

end Executes

/-- On the way to a line nothing happens but that it is reached. -/
theorem Proceeds.advance {line : Nat} (proceeds : m.Proceeds m') (running : m.running = true)
    (stage : m.stage = .advance none (some line)) :
    m'.session.link = m.session.link ∧ (m'.stage = .advance none (some line) ∨
      (m'.line = line ∧ m'.stage = if m'.store.inputSlot ≤ line then .terminate else .search)) := by
  obtain ⟨-, ⟨call, move⟩, going⟩ := proceeds
  cases move with
  | cycle =>
    have cycled := m.cycled
    generalize m.cycle.1 = told, m.cycle.2 = next at cycled going
    cases cycled with
    | print | list => exact ⟨rfl, .inl stage⟩
    | stopped _ _ stopped => exact absurd (running.symm.trans stopped) (by decide)
    | broken => cases going
    | input _ _ _ _ awaits => exact absurd (stage.symm.trans awaits) nofun
    | step =>
      unfold step
      rw [stage]
      exact ⟨rfl, .inr ⟨rfl, rfl⟩⟩
  | call k idle =>
    obtain ⟨session, same | awaits⟩ := session_call running idle
    · exact ⟨congrArg Session.link session, .inl (same.trans stage)⟩
    · rw [stage] at awaits
      cases awaits

/-- With nothing to show, the next cycle gets there. -/
theorem proceeds_of_advance {line : Nat} (stage : m.stage = .advance none (some line))
    (running : m.running = true) (silent : m.cycle = (none, m.step)) :
    m.Proceeds m.step ∧ m.step.stage.isUnderway = false := by
  have stepped : m.step = m.advance none (some line) := by
    unfold step
    rw [stage]
  refine ⟨⟨by rw [stage]; rfl, ⟨m.linkCall?, ?_⟩, by rw [stepped]; exact running⟩, ?_⟩
  · have move := Move.cycle (m := m)
    rwa [silent] at move
  · rw [stepped]
    unfold Machine.advance
    dsimp only
    split <;> rfl

/-- **Behind a return the line after the call is next.** -/
theorem settled_of_proceeds {line : Nat} (running : m.running = true)
    (stage : m.stage = .advance none (some line))
    (run : Relation.ReflTransGen Proceeds m m') :
    m'.running = true ∧ m'.session.link = m.session.link ∧
      (m'.stage = .advance none (some line) ∨
        (m'.line = line ∧ m'.stage = if m'.store.inputSlot ≤ line then .terminate else .search)) := by
  induction run with
  | refl => exact ⟨running, rfl, .inl stage⟩
  | tail _ proceeds ih =>
    obtain ⟨running, link, under | ⟨-, done⟩⟩ := ih
    · obtain ⟨kept, later⟩ := proceeds.advance running under
      exact ⟨proceeds.running, kept.trans link, later⟩
    · -- nothing is under way there any more
      have underway := proceeds.underway
      rw [done] at underway
      split at underway <;> cases underway

/-- **A call returns behind itself**, from wherever the run has got to, if its
line was never replaced or taken off on the way. -/
theorem Executes.returns {t : Nat} {j : Instruction} {w : Sources} (calls : m.Executes i v)
    (reached : Reachable c m) (call : i.command = .call) (target : i.target 0 = some t)
    (room : m.session.link.size < c.linkDepth)
    (run : Relation.ReflTransGen (StaysAbove (m.session.link.size + 1)) m.step m')
    (returns : m'.Executes j w) (ret : j.command = .ret)
    (top : m'.session.link.size = m.session.link.size + 1) :
    m'.step.session.link = m.session.link ∧ m'.step.stage = .advance none (some (m.line + 1)) ∧
      m'.step.running = true ∧ m'.step.cycle = (none, m'.step.step) := by
  have running := reached.running (show m.stage.isUnderway = true by rw [calls.1]; rfl)
  have stepped : Reachable c m.step := by
    have next := reached.call (.execute 1)
    rwa [call_execute_one, calls.2] at next
  have goes : m.step.running = true := by
    rw [step_of_execute calls.1]
    exact (m.framed_perform i v).running.trans running
  have pushed := calls.entries_call call target
    (reached.sound.session.linkCapacity.symm ▸ room)
  have bottom : m.line :: m.session.link.entries <:+ m.step.session.link.entries :=
    pushed ▸ List.suffix_refl _
  obtain ⟨reached', running', under⟩ := suffix_entries stepped goes bottom run
  -- there are no more entries than those at the bottom
  have entries := under.eq_of_length top.symm
  have same : LinkStack.mk m'.session.link.capacity m.session.link.entries = m.session.link := by
    rw [reached'.sound.session.linkCapacity, ← reached.sound.session.linkCapacity]
  obtain ⟨output, listing, quiet⟩ := returns.quiet running'
  rw [returns.step_ret ret entries.symm]
  exact ⟨same, rfl, running', cycle_of_shown output listing quiet running' rfl⟩

/-- **Calls and returns match.** A call on a link stack that is not full is
followed by a stretch of a run, with whatever calls, loops and breaks in it, and
whatever the host does meanwhile, in which no push replaces an entry and the
stack keeps one entry more than before the call. A `ret` at its end that finds
no more than that takes the stack back to what it was, and the line behind the
call is searched next, or the run ends there. For the link stack is a bounded
stack, on which a push at full depth replaces the newest entry alone. -/
theorem calls_return :
    (∀ {c : Config} {m m' : Machine} {i j : Instruction} {v w : Sources} {t : Nat},
      Reachable c m → m.Executes i v → i.command = .call → i.target 0 = some t →
      m.session.link.size < c.linkDepth →
      Relation.ReflTransGen (StaysAbove (m.session.link.size + 1)) m.step m' →
      m'.Executes j w → j.command = .ret → m'.session.link.size = m.session.link.size + 1 →
      (∃ m'', Relation.ReflTransGen Proceeds m'.step m'' ∧ m''.stage.isUnderway = false) ∧
      ∀ m'', Relation.ReflTransGen Proceeds m'.step m'' →
        m''.session.link = m.session.link ∧ (m''.stage.isUnderway = false →
          m''.line = m.line + 1 ∧
          m''.stage = if m''.store.inputSlot ≤ m.line + 1 then .terminate else .search)) ∧
    ∀ (s : LinkStack) (calls : List (Call Nat)), 1 ≤ s.capacity → s.size ≤ s.capacity →
      s.answers calls = BoundedStack.answers s.capacity s.entries calls ∧
      (s.after calls).entries = BoundedStack.after s.capacity s.entries calls ∧
      (s.after calls).size ≤ s.capacity ∧
      ((s.after calls).size = s.capacity → ∀ line,
        ((s.after calls).push line).entries = line :: (s.after calls).entries.tail ∧
        (s.after calls).entries.tail.length = s.capacity - 1) ∧
      ((s.after calls).entries = [] → (s.after calls).pop = (none, s.after calls)) := by
  refine ⟨fun reached calls call target room run returns ret top => ?_, fun s calls pos within => ?_⟩
  · obtain ⟨link, stage, running, silent⟩ :=
      calls.returns reached call target room run returns ret top
    obtain ⟨proceeds, arrived⟩ := proceeds_of_advance stage running silent
    refine ⟨⟨_, .single proceeds, arrived⟩, fun m'' onward => ?_⟩
    obtain ⟨-, kept, later⟩ := settled_of_proceeds running stage onward
    refine ⟨kept.trans link, fun done => ?_⟩
    rcases later with under | there
    · rw [under] at done
      cases done
    · exact there
  · have entries := s.entries_after pos calls
    have size : (s.after calls).size ≤ s.capacity := by
      rw [LinkStack.size, entries]
      exact BoundedStack.length_after_le pos within calls
    refine ⟨s.answers_eq pos calls, entries, size, fun full line => ⟨?_, ?_⟩, fun empty => ?_⟩
    · have push := LinkStack.entries_apply (s := s.after calls)
        ((s.capacity_after calls).symm ▸ pos) (.push line)
      rw [s.capacity_after] at push
      exact push.trans (BoundedStack.push_of_le full.ge line)
    · rw [List.length_tail]
      exact congrArg (· - 1) full
    · rw [LinkStack.pop, empty]

/-- A routine in which a loop is left goes back behind its call, and of three
lines on a stack of two the second is replaced. -/
theorem calls_return_loop :
    (∃ m m' m'' i v j w, Reachable { lines := 9, row := 16 } m ∧ m.Executes i v ∧
      i.command = .call ∧ i.target 0 = some 3 ∧
      Relation.ReflTransGen (StaysAbove 1) m.step m' ∧ m'.Executes j w ∧ j.command = .ret ∧
      Relation.ReflTransGen Proceeds m'.step m'' ∧ m''.line = 2 ∧ m''.session.link.entries = []) ∧
    LinkStack.answers { capacity := 2 } [.push 1, .push 2, .push 3, .pop, .pop, .pop] =
      [none, none, none, some 3, some 1, none] := by
  obtain ⟨returns, bounded⟩ := calls_return
  refine ⟨?_, ?_⟩
  · have reached :=
      (@Reachable.new { lines := 9, row := 16 } { clock := .stepped 0 } default _ rfl).calls
        [.write 1 "call @3".toList, .write 3 "for @7 1".toList, .write 4 "break".toList,
          .write 5 "next @7".toList, .write 6 "ret".toList, .receive "run".toList, .execute 1]
    generalize stands : Machine.calls _ _ = m at reached
    obtain ⟨i, v, calls, found⟩ : ∃ i v, m.Executes i v ∧ m.stage.instruction? = some i := by
      rw [← stands]
      exact Executes.exists_of_phase (by decide +kernel) (by decide +kernel) rfl (by decide +kernel)
        (by decide +kernel)
    have command : m.stage.instruction?.map (fun i => (i.command, i.target 0)) =
        some (.call, some 3) := by
      rw [← stands]
      decide +kernel
    rw [found] at command
    obtain ⟨call, target⟩ := Prod.mk.inj (Option.some.inj command)
    have before : m.session.link = { capacity := 16 } ∧ m.line = 1 := by
      rw [← stands]
      decide +kernel
    obtain ⟨empty, line⟩ := before
    have stepped : m.step = m.cycle.2 := congrArg Prod.snd calls.2.symm
    have run : Relation.ReflTransGen (StaysAbove 1) m.step ((fun m => m.cycle.2)^[12] m.step) := by
      refine staysAbove_cycles 12 ?_
      rw [stepped, ← stands]
      decide +kernel
    generalize now : (fun m : Machine => m.cycle.2)^[12] m.step = m' at run
    rw [stepped] at now
    obtain ⟨j, w, ends, last⟩ : ∃ j w, m'.Executes j w ∧ m'.stage.instruction? = some j := by
      rw [← now, ← stands]
      exact Executes.exists_of_phase (by decide +kernel) (by decide +kernel) rfl (by decide +kernel)
        (by decide +kernel)
    have ret : m'.stage.instruction?.map Instruction.command = some .ret := by
      rw [← now, ← stands]
      decide +kernel
    rw [last] at ret
    have top : m'.session.link.size = 1 := by
      rw [← now, ← stands]
      decide +kernel
    obtain ⟨⟨m'', onward, done⟩, next⟩ := returns reached calls call target
      (by rw [empty]; decide) (by rw [empty]; exact run) ends (Option.some.inj ret)
      (by rw [empty]; exact top)
    obtain ⟨link, arrived⟩ := next m'' onward
    refine ⟨m, m', m'', i, v, j, w, reached, calls, call, target, run, ends, Option.some.inj ret,
      onward, ?_, ?_⟩
    · rw [(arrived done).1, line]
    · rw [link, empty]
  · obtain ⟨answers, -⟩ := bounded { capacity := 2 } [.push 1, .push 2, .push 3, .pop, .pop, .pop]
      (by decide) (by decide)
    rw [answers]
    decide

end Machine

end LineScript
