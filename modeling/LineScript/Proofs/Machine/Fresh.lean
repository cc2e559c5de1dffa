import LineScript.Proofs.Machine.Alike
/-!
# Runs start afresh

However a run ends, it ends in the stage that clears the session: so a machine
that does not run has the session and the heap it began with (`Kept.fresh`).
Only the count of handles goes on. It decides which blocks the arrays of the
next run are in, and nothing that a run does depends on that.
-/

namespace LineScript

open ArrayTable

/-- Going back to the state before any run is to begin anew. -/
theorem Session.reset_eq_new {c : Config} {s : Session} {heap : Heap} {f : Contents}
    (sound : s.Sound c) (capacity : s.arrays.capacity = c.arrays) (holds : s.arrays.Holds heap f) :
    (s.reset heap).1 = Session.new c := by
  have size := ArrayCall.freeAll.capacity_apply (s.arrays, heap)
  have emptied : (s.arrays.freeAll heap).1 = ArrayTable.new c.arrays := by
    rw [holds.freeAll.eq_new.1, ← capacity]
    exact congrArg ArrayTable.new size
  simp only [reset, new, LinkStack.clear, LabelTable.clear, emptied, sound.linkCapacity,
    sound.labelCapacity, sound.labelLen, sound.floor]

namespace Machine

variable {c : Config} {m m' : Machine} {n : Nat} {f : Contents}

/-! ## Machines that have their heap to themselves -/

/-- The machines of a configuration that calls of a host lead to, if the host
leaves the heap to them, and how many blocks they took into use. The host may
change the other devices. -/
inductive ReachableWith (c : Config) : (allocated : Nat) → Machine → Prop where
  | new {board : Board} {g : Generator} {m : Machine} : board.heap = {} →
      Machine.new c board g = .ok m → ReachableWith c 0 m
  | call {n : Nat} {m : Machine} (k : HostCall) : ReachableWith c n m →
      ReachableWith c (n + ArrayCall.allocationsOf (m.arrayCallsBy k) m.arrays) (m.call k).2
  | devices {n : Nat} {m : Machine} (board : Board) : board.heap = m.board.heap →
      ReachableWith c n m → ReachableWith c n { m with board }

theorem ReachableWith.calls (h : ReachableWith c n m) (ks : List HostCall) :
    ReachableWith c (n + m.allocations ks) (m.calls ks) := by
  induction ks generalizing n m with
  | nil => exact h
  | cons k rest ih =>
    rw [allocations, ← Nat.add_assoc]
    exact ih (h.call k)

/-- What holds of them. -/
structure Kept (c : Config) (allocated : Nat) (m : Machine) : Prop where
  sound : m.Sound c
  capacity : m.arrays.1.capacity = c.arrays
  holds : ∃ f, m.arrays.1.Holds m.arrays.2 f
  last : m.arrays.2.last.toNat = allocated
  /-- Nothing is left of earlier runs when no run is on. -/
  fresh : m.running = false → m.session = Session.new c ∧ m.output = []

namespace Kept

/-- What is done to the arrays in a call. -/
theorem arrays (h : Kept c n m) {calls : List ArrayCall}
    (done : m'.arrays = ArrayCall.applyAll calls m.arrays)
    (few : n + ArrayCall.allocationsOf calls m.arrays < 2 ^ 32) :
    m'.arrays.1.capacity = c.arrays ∧ (∃ f, m'.arrays.1.Holds m'.arrays.2 f) ∧
      m'.arrays.2.last.toNat = n + ArrayCall.allocationsOf calls m.arrays := by
  obtain ⟨f, holds⟩ := h.holds
  rw [← h.last] at few
  obtain ⟨after, size⟩ := ArrayCall.holds_applyAll holds calls few
  have last := ArrayCall.toNat_last_applyAll calls m.arrays few
  rw [done]
  exact ⟨size.trans h.capacity, ⟨_, after⟩, h.last ▸ last⟩

end Kept

/-- A step ends a run in the last stage only. -/
theorem running_step (other : m.stage ≠ .terminate) : m.step.running = m.running := by
  have stepped := m.stepped
  generalize m.step = m' at stepped
  cases stepped with
  | @performed i v => exact (m.framed_perform i v).running
  | ended stage => exact absurd stage other
  | past | found | passed | read | advanced | awaits | slept | woken => rfl

/-- The end of a run clears the session. -/
theorem Kept.terminate (h : Kept c n m) (output : m.output = []) :
    m.terminate.session = Session.new c ∧ m.terminate.output = [] := by
  obtain ⟨f, holds⟩ := h.holds
  exact ⟨Session.reset_eq_new h.sound.session h.capacity holds, output⟩

/-- **However a run ends, nothing is left of it**, cycle by cycle. -/
theorem Kept.cycle (h : Kept c n m)
    (few : n + ArrayCall.allocationsOf m.arrayCallsNext m.arrays < 2 ^ 32) :
    Kept c (n + ArrayCall.allocationsOf m.arrayCallsNext m.arrays) m.cycle.2 := by
  obtain ⟨capacity, holds, last⟩ := h.arrays m.arrays_cycle few
  refine ⟨h.sound.cycle, capacity, holds, last, ?_⟩
  have cycled := m.cycled
  generalize m.cycle.1 = told, m.cycle.2 = m' at cycled
  cases cycled with
  | print => exact fun rests => ⟨(h.fresh rests).1, rfl⟩
  | list | stopped | input => exact h.fresh
  | broken output => exact fun _ => h.terminate output
  | step output _ running =>
    intro rests
    have ends : m.stage = .terminate := by
      by_contra other
      exact Bool.false_ne_true (rests.symm.trans ((running_step other).trans running))
    rw [show m.step = m.terminate by rw [step, ends]]
    exact h.terminate output

theorem Kept.execute (h : Kept c n m) (cycles : Nat)
    (few : n + ArrayCall.allocationsOf (arrayCallsIn cycles m) m.arrays < 2 ^ 32) :
    Kept c (n + ArrayCall.allocationsOf (arrayCallsIn cycles m) m.arrays) (m.execute cycles).2 := by
  induction cycles generalizing n m with
  | zero => exact h
  | succ cycles ih =>
    unfold arrayCallsIn at few ⊢
    rcases made : m.cycle with ⟨_ | e, m'⟩
    · rw [made] at few
      rw [execute_succ_of_silent cycles made]
      have next := m.arrays_cycle
      rw [made] at next
      simp only [ArrayCall.allocationsOf_append, ← next, ← Nat.add_assoc] at few ⊢
      have now := h.cycle (by omega)
      rw [made] at now
      exact ih now few
    · rw [execute_succ_of_told cycles made]
      have none : m.arrayCallsNext = [] := by rw [arrayCallsNext, made]
      have now := h.cycle (by rw [none]; rw [made] at few; exact few)
      rw [none, made] at now
      exact now

/-- A line that is entered leaves the session alone, unless it starts a run;
and only a machine that did not run is found not to run after it. -/
theorem session_receive (t : Text) (rests : (m.receive t).2.running = false) :
    m.running = false ∧ (m.receive t).2.session = m.session ∧ (m.receive t).2.output = m.output := by
  have received := m.received t
  generalize (m.receive t).1 = used, (m.receive t).2 = m' at received rests
  cases received with
  | broken => exact ⟨rests, rfl, rfl⟩
  | edited clean rested =>
    have other : ∀ e, e = .run ∨ e = .clear → ((m.noting t).edit e).running = true := by
      rintro e (rfl | rfl) <;> rfl
    obtain ⟨store, cursor, listing, same⟩ := (m.noting t).edit_eq
      (fun run => absurd (rests.symm.trans (other _ (.inl run))) nofun)
      (fun clear => absurd (rests.symm.trans (other _ (.inr clear))) nofun)
    rw [same]
    exact ⟨rested, rfl, rfl⟩
  | taken _ runs | ignored _ runs => exact absurd (rests.symm.trans runs) nofun

/-- **Each call of the host keeps what is kept.** -/
theorem Kept.call (h : Kept c n m) (k : HostCall)
    (few : n + ArrayCall.allocationsOf (m.arrayCallsBy k) m.arrays < 2 ^ 32) :
    Kept c (n + ArrayCall.allocationsOf (m.arrayCallsBy k) m.arrays) (m.call k).2 := by
  obtain ⟨capacity, holds, last⟩ := h.arrays (m.arrays_call k) few
  refine ⟨h.sound.call k, capacity, holds, last, ?_⟩
  cases k with
  | receive t =>
    intro rests
    obtain ⟨rested, session, output⟩ := session_receive t rests
    obtain ⟨fresh, shown⟩ := h.fresh rested
    exact ⟨session.trans fresh, output.trans shown⟩
  | execute cycles => exact (h.execute cycles few).fresh
  | interrupt | service | change => exact h.fresh

theorem kept_new {board : Board} {g : Generator} (unused : board.heap = {})
    (made : Machine.new c board g = .ok m) : Kept c 0 m := by
  have sound := sound_new made
  simp only [Machine.new, Config.validate] at made
  split at made
  · cases made
  · cases made
    refine ⟨sound, Array.size_replicate, ⟨fun _ => none, ?_⟩, ?_, fun _ => ⟨rfl, rfl⟩⟩
    · change (ArrayTable.new c.arrays).Holds board.heap _
      rw [unused]
      exact holds_new c.arrays
    · exact congrArg (fun heap : Heap => heap.last.toNat) unused

/-- **Whatever a host did, what is kept is kept.** -/
theorem ReachableWith.kept (h : ReachableWith c n m) (few : n < 2 ^ 32) : Kept c n m := by
  induction h with
  | new unused made => exact kept_new unused made
  | call k _ ih => exact (ih (by omega)).call k few
  | devices board same _ ih =>
    have kept := ih few
    obtain ⟨f, holds⟩ := kept.holds
    exact {
      sound := kept.sound.withBoard board _ _ _
      capacity := kept.capacity
      holds := ⟨f, by rw [Machine.arrays, same]; exact holds⟩
      last := by rw [Machine.arrays, same]; exact kept.last
      fresh := kept.fresh }

/-! ## What a run starts from -/

/-- With no run on, the heap is empty too. -/
theorem Kept.empty (h : Kept c n m) (rests : m.running = false) :
    m.arrays.1.Holds m.arrays.2 fun _ => none := by
  obtain ⟨f, holds⟩ := h.holds
  have blank : m.arrays.1 = ArrayTable.new c.arrays := congrArg Session.arrays (h.fresh rests).1
  have nothing : f = fun _ => none := by
    rw [blank] at holds
    exact holds.eq_none
  rwa [nothing] at holds

/-- Two machines with no run on are alike if their lines, devices and random
numbers are the same. -/
theorem Kept.alike {n' : Nat} (h : Kept c n m) (h' : Kept c n' m') (rests : m.running = false)
    (rests' : m'.running = false) (store : m'.store = m.store) (random : m'.random = m.random)
    (devices : m'.board = { m.board with heap := m'.board.heap }) :
    Alike (fun _ => none) m m' := by
  refine ⟨?_, h'.capacity.trans h.capacity.symm, h.empty rests, h'.empty rests'⟩
  obtain ⟨session, output⟩ := h.fresh rests
  obtain ⟨session', output'⟩ := h'.fresh rests'
  obtain ⟨stage, line⟩ := h.sound.stopped rests
  obtain ⟨stage', line'⟩ := h'.sound.stopped rests'
  have config := h'.sound.config.trans h.sound.config.symm
  have same : m'.session = { m.session with arrays := m'.session.arrays } := by
    rw [session', session]
  obtain ⟨⟩ := m'
  simp only [rehoused, Machine.arrays, Machine.mk.injEq]
  exact ⟨config, store, same, devices, random, line'.trans line.symm, stage'.trans stage.symm,
    output'.trans output.symm, rests'.trans rests.symm, trivial, trivial, trivial⟩

/-! ## The random stream -/

theorem words_step (m : Machine) : m.step.random.words = m.random.words := by
  have stepped := m.stepped
  generalize m.step = m' at stepped
  cases stepped with
  | @performed i v => exact (m.framed_perform i v).words
  | past | found | passed | read | advanced | awaits | slept | woken | ended => rfl

theorem words_cycle (m : Machine) : m.cycle.2.random.words = m.random.words := by
  have cycled := m.cycled
  generalize m.cycle.1 = told, m.cycle.2 = m' at cycled
  cases cycled with
  | print | list | stopped | broken | input => rfl
  | step => exact m.words_step

theorem words_execute (m : Machine) (cycles : Nat) :
    (m.execute cycles).2.random.words = m.random.words := by
  induction cycles generalizing m with
  | zero => rfl
  | succ cycles ih =>
    have next := m.words_cycle
    rcases made : m.cycle with ⟨_ | e, m'⟩
    · rw [made] at next
      rw [execute_succ_of_silent cycles made]
      exact (ih m').trans next
    · rw [made] at next
      rw [execute_succ_of_told cycles made]
      exact next

theorem words_edit (m : Machine) (e : Edit) : (m.edit e).random = m.random := by
  by_cases leaves : e = .run ∨ e = .clear
  · rcases leaves with rfl | rfl <;> rfl
  · obtain ⟨_, _, _, same⟩ := m.edit_eq (fun run => leaves (.inl run)) fun clear =>
      leaves (.inr clear)
    rw [same]

/-- **A machine draws from one stream** all the time. -/
theorem words_call (m : Machine) (k : HostCall) :
    (m.call k).2.random.words = m.random.words := by
  cases k with
  | receive t =>
    have received := m.received t
    change (m.receive t).2.random.words = m.random.words
    generalize (m.receive t).1 = used, (m.receive t).2 = m' at received
    cases received with
    | broken | taken | ignored => rfl
    | edited => rw [words_edit]; rfl
  | execute cycles => exact m.words_execute cycles
  | interrupt | service | change => rfl

theorem words_calls (m : Machine) (ks : List HostCall) :
    (m.calls ks).random.words = m.random.words := by
  induction ks generalizing m with
  | nil => rfl
  | cons k rest ih => exact (ih (m.call k).2).trans (m.words_call k)

/-! ## Stopped machines -/

/-- **A machine that does not run is as good as new**, however its last run
ended: its session is that of a machine that never ran, and its heap is empty.
So a run takes the same steps on any two machines with the same lines, devices
and random numbers, whatever ran on them before; and if the same listing and
break are pending, a host that leaves the editor alone gets the same answers
from both. -/
theorem stopped_is_fresh (h : ReachableWith c n m) (few : n < 2 ^ 32) (rests : m.running = false) :
    (m.session.flow.skip = none ∧ m.session.flow.nest = 0 ∧ m.session.link.entries = [] ∧
      m.session.labels.entries = [] ∧ m.session.arrays.inUse = 0 ∧
      m.session.scratch = c.lines - 2 ∧ m.board.heap.live = 0 ∧ m.board.heap.used = 0) ∧
    ∀ n' m', ReachableWith c n' m' → n' < 2 ^ 32 → m'.running = false → m'.store = m.store →
      m'.random = m.random → m'.board = { m.board with heap := m'.board.heap } →
      (∀ k steps, m.StartsRun k →
        n + ArrayCall.allocationsOf (arrayCallsDuring steps (m.call k).2) (m.call k).2.arrays
          < 2 ^ 32 →
        n' + ArrayCall.allocationsOf (arrayCallsDuring steps (m'.call k).2) (m'.call k).2.arrays
          < 2 ^ 32 →
        ∃ f, Alike f (step^[steps] (m.call k).2) (step^[steps] (m'.call k).2)) ∧
      (m'.listing = m.listing → m'.interrupted = m.interrupted →
        ∀ ks, m.LeavesEditor ks → n + m.allocations ks < 2 ^ 32 → n' + m'.allocations ks < 2 ^ 32 →
          m'.replies ks = m.replies ks ∧ (m'.calls ks).store = (m.calls ks).store ∧
            (m'.calls ks).random = (m.calls ks).random ∧
            (m'.calls ks).board = { (m.calls ks).board with heap := (m'.calls ks).board.heap }) := by
  have kept := h.kept few
  obtain ⟨session, -⟩ := kept.fresh rests
  obtain ⟨blank, live, used⟩ := (kept.empty rests).eq_new
  refine ⟨?_, fun n' m' h' few' rests' store random devices => ?_⟩
  · have unused : (ArrayTable.new c.arrays).inUse = 0 := by simp [inUse, ArrayTable.new]
    rw [session]
    exact ⟨rfl, rfl, rfl, rfl, unused, rfl, live, used⟩
  · have kept' := h'.kept few'
    have alike := kept.alike kept' rests rests' store random devices
    refine ⟨fun k steps starts bound bound' => ?_,
      fun listing interrupted ks leaves bound bound' => ?_⟩
    · obtain ⟨f, started⟩ := alike.start starts
      have starts' : m'.StartsRun k :=
        ((congrArg (fun m => StartsRun m k) alike.same).trans rfl).mpr starts
      refine started.iterate_step steps ?_ ?_
      · rwa [Few, last_start starts, kept.last]
      · rwa [Few, last_start starts', kept'.last]
    · have twins : Twins m m' := ⟨⟨_, alike⟩, listing, interrupted⟩
      obtain ⟨replies, after⟩ := twins.replies ks leaves (kept.last.symm ▸ bound)
        (kept'.last.symm ▸ bound')
      have same := after.same
      refine ⟨replies, ?_, ?_, ?_⟩
      · rw [same]
        rfl
      · rw [same]
        rfl
      · rw [same]
        rfl

/-- A machine that made an array in a run goes on as one that never ran. -/
theorem stopped_is_fresh_rerun :
    ∃ m m', ReachableWith { lines := 6, row := 16 } 1 m ∧ m.running = false ∧
      m.board.heap.live = 0 ∧ m.board.heap.used = 0 ∧ m.board.heap.last ≠ m'.board.heap.last ∧
      ReachableWith { lines := 6, row := 16 } 0 m' ∧ m'.running = false ∧
      m'.replies [.receive "run".toList, .execute 50, .execute 50] =
        m.replies [.receive "run".toList, .execute 50, .execute 50] := by
  let script : List HostCall := [.write 1 "arr 0 1 2 1".toList, .write 2 "pict 0".toList]
  let ran : List HostCall := script ++
    [.receive "run".toList, .execute 50, .execute 50, .execute 50]
  let entered : List HostCall := script ++ [.write 5 "run".toList]
  have new := @ReachableWith.new { lines := 6, row := 16 } { clock := .stepped 0 } default _ rfl rfl
  have reached := new.calls ran
  have reached' := new.calls entered
  generalize count : 0 + allocations _ ran = n at reached
  generalize count' : 0 + allocations _ entered = n' at reached'
  generalize stands : Machine.calls _ ran = m at reached
  generalize stands' : Machine.calls _ entered = m' at reached'
  obtain rfl : n = 1 := by
    rw [← count]
    decide +kernel
  obtain rfl : n' = 0 := by
    rw [← count']
    decide +kernel
  have rests : m.running = false := by
    rw [← stands]
    decide +kernel
  have rests' : m'.running = false := by
    rw [← stands']
    rfl
  have store : m'.store = m.store := by
    have ext : ∀ s s' : Store, (s.row, s.slots) = (s'.row, s'.slots) → s = s' := by
      rintro ⟨row, slots⟩ ⟨row', slots'⟩ ⟨⟩
      rfl
    refine ext _ _ ?_
    rw [← stands, ← stands']
    decide +kernel
  have random : m'.random = m.random := by
    have drawn : m'.random.drawn = m.random.drawn := by
      rw [← stands, ← stands']
      decide +kernel
    have words : m'.random.words = m.random.words := by
      rw [← stands, ← stands', words_calls, words_calls]
    calc
      m'.random = ⟨m'.random.words, m'.random.drawn⟩ := rfl
      _ = m.random := by rw [words, drawn]
  have others : (m'.listing, m'.interrupted) = (m.listing, m.interrupted) := by
    rw [← stands, ← stands']
    decide +kernel
  have last : m.board.heap.last ≠ m'.board.heap.last := by
    rw [← stands, ← stands']
    decide +kernel
  have few : 1 + m.allocations [.receive "run".toList, .execute 50, .execute 50] < 2 ^ 32 := by
    rw [← stands]
    decide +kernel
  -- the new machine is given the devices of the one that ran
  have reached' := reached'.devices { m.board with heap := m'.board.heap } rfl
  have few' : 0 + { m' with board := { m.board with heap := m'.board.heap } }.allocations
      [.receive "run".toList, .execute 50, .execute 50] < 2 ^ 32 := by
    rw [← stands, ← stands']
    decide +kernel
  obtain ⟨⟨-, -, -, -, -, -, live, used⟩, later⟩ := stopped_is_fresh reached (by decide) rests
  obtain ⟨-, same⟩ := later 0 _ reached' (by decide) rests' store random rfl
  obtain ⟨replies, -⟩ := same (congrArg (·.1) others) (congrArg (·.2) others)
    [.receive "run".toList, .execute 50, .execute 50] ⟨.inr (.inr rfl), trivial, trivial, trivial⟩
    few few'
  exact ⟨m, { m' with board := { m.board with heap := m'.board.heap } }, reached, rests, live, used,
    last, reached', rests', replies⟩

end Machine

end LineScript
