import LineScript.Proofs.Arrays.Map
import LineScript.Proofs.Machine.Calls
import LineScript.Proofs.Machine.Cycle
/-!
# The arrays of a machine

What a machine does to its arrays is a sequence of calls of the table and the
heap, and `arrayCallsBy` lists those of each call of its host. The rest of a
machine knows its arrays only by what they read as: a machine whose arrays are
kept in other blocks of another heap makes the same steps (`step_rehoused`).
-/

namespace LineScript

/-- The scratch stack has nothing to do with the arrays. -/
theorem Session.pop_withArrays (s : Session) (arrays : ArrayTable) (lines : Store) :
    { s with arrays }.pop lines =
      ((s.pop lines).1, { (s.pop lines).2.1 with arrays }, (s.pop lines).2.2) := by
  unfold pop
  dsimp only
  split
  · rfl
  · split <;> rfl

namespace Machine

variable {m m' : Machine} {s : ArrayTable × Heap} {cursor : Nat} {listing : Option Listing}
  {interrupted : Bool}

/-- The table of arrays and the heap. -/
def arrays (m : Machine) : ArrayTable × Heap := (m.session.arrays, m.board.heap)

/-- The machine with another table and heap, and with another cursor, pending
listing and break, which no stage reads. -/
def rehoused (m : Machine) (s : ArrayTable × Heap) (cursor : Nat) (listing : Option Listing)
    (interrupted : Bool) : Machine :=
  { m with
    session := { m.session with arrays := s.1 }
    board := { m.board with heap := s.2 }
    cursor, listing, interrupted }

/-! ## What is done to the arrays -/

/-- What a command does to the arrays. -/
def arrayCallsOf (m : Machine) (i : Instruction) (v : Sources) : List ArrayCall :=
  match i.command with
  | .array => [.create (v.number 0) (m.wordsOfLines (v.number 1) (v.number 2)) (v.number 3)]
  | .free => [.free (v.number 0)]
  | .clear => [.freeAll]
  | _ => []

/-- What the next step does to the arrays. -/
def arrayCalls (m : Machine) : List ArrayCall :=
  match m.stage with
  | .execute i v => m.arrayCallsOf i v
  | .terminate => [.freeAll]
  | _ => []

/-- What some steps do to the arrays. -/
def arrayCallsDuring : (steps : Nat) → Machine → List ArrayCall
  | 0, _ => []
  | steps + 1, m => m.arrayCalls ++ arrayCallsDuring steps m.step

/-- What the next cycle does to the arrays. -/
def arrayCallsNext (m : Machine) : List ArrayCall :=
  match m.cycle.1 with
  | some _ => []
  | none => m.obey.arrayCalls

/-- What some cycles, up to the first that tells something, do to the arrays. -/
def arrayCallsIn : (cycles : Nat) → Machine → List ArrayCall
  | 0, _ => []
  | cycles + 1, m =>
    match m.cycle with
    | (some _, _) => []
    | (none, m') => m.arrayCallsNext ++ arrayCallsIn cycles m'

/-- What a call of the host does to the arrays. -/
def arrayCallsBy (m : Machine) : HostCall → List ArrayCall
  | .execute cycles => arrayCallsIn cycles m
  | k => if m.StartsRun k then [.freeAll] else []

/-- How many blocks calls of the host take into use. -/
def allocations : (m : Machine) → List HostCall → Nat
  | _, [] => 0
  | m, k :: rest =>
    ArrayCall.allocationsOf (m.arrayCallsBy k) m.arrays + allocations (m.call k).2 rest

/-! ## Commands -/

/-- **A command knows the arrays only by what they read as.** -/
theorem perform_rehoused (i : Instruction) (v : Sources)
    (reads : ∀ id, (m.rehoused s cursor listing interrupted).array? id = m.array? id) :
    (m.rehoused s cursor listing interrupted).perform i v =
      ((m.perform i v).1, (m.perform i v).2.rehoused (ArrayCall.applyAll (m.arrayCallsOf i v) s)
        cursor listing interrupted) := by
  unfold perform arrayCallsOf
  cases i.command with
  | compute | bitwise | copy | move | append | extend | countLines | countBytes | jump | stop
  | endBranch | input | read | readGpio | rand | sleep | clearGpio | clearSound | beat | setTime
  | save | ret | endLoop | next | push | otherwise | leave | getTime | array | free | load
  | label | clear | print | cursor => rfl
  | pop =>
    have popped : (m.rehoused s cursor listing interrupted).session.pop
        (m.rehoused s cursor listing interrupted).store = _ := m.session.pop_withArrays s.1 m.store
    dsimp only
    rw [popped]
    rfl
  | call | branch | pointer =>
    dsimp only
    split <;> rfl
  | loop | count =>
    dsimp only [enterLoop]
    split <;> rfl
  | picture =>
    dsimp only
    rw [reads]
    split <;> rfl
  | gpio | sound | interruptSound =>
    dsimp only [withArray]
    rw [reads]
    split <;> rfl

/-! ## Steps -/

/-- The listing that is pending after a step. -/
def listingAfter (m : Machine) (listing : Option Listing) : Option Listing :=
  match m.stage with
  | .terminate => some m.store.listing
  | _ => listing

/-- **A step knows them no better.** -/
theorem step_rehoused
    (reads : ∀ id, (m.rehoused s cursor listing interrupted).array? id = m.array? id) :
    (m.rehoused s cursor listing interrupted).step =
      m.step.rehoused (ArrayCall.applyAll m.arrayCalls s) cursor (m.listingAfter listing)
        interrupted := by
  unfold step arrayCalls listingAfter
  rw [show (m.rehoused s cursor listing interrupted).stage = m.stage from rfl]
  cases stage : m.stage with
  | search =>
    dsimp only
    rw [search_eq, search_eq]
    have inside : (m.rehoused s cursor listing interrupted).store.inputSlot = m.store.inputSlot := rfl
    have line : (m.rehoused s cursor listing interrupted).line = m.line := rfl
    have decoded : (m.rehoused s cursor listing interrupted).instruction? = m.instruction? := rfl
    rw [inside, line, decoded]
    split
    · rfl
    · cases m.instruction? <;> rfl
  | enumerate i v => rfl
  | execute i v =>
    dsimp only [executeCommand]
    rw [perform_rehoused i v reads]
    cases (m.perform i v).1 <;> rfl
  | advance write jump => rfl
  | awaiting prompt destination => rfl
  | sleeping deadline =>
    have clock : (m.rehoused s cursor listing interrupted).board.clock = m.board.clock := rfl
    dsimp only [wake]
    rw [clock]
    split <;> rfl
  | terminate => rfl

/-- What a step makes of its own arrays and listing. -/
theorem step_eq_rehoused (m : Machine) :
    m.step = m.step.rehoused (ArrayCall.applyAll m.arrayCalls m.arrays) m.cursor
      (m.listingAfter m.listing) m.interrupted := by
  have own : (m.rehoused m.arrays m.cursor m.listing m.interrupted).step = _ :=
    step_rehoused fun _ => rfl
  exact own

theorem arrays_step (m : Machine) : m.step.arrays = ArrayCall.applyAll m.arrayCalls m.arrays :=
  (congrArg arrays m.step_eq_rehoused).trans rfl

theorem listing_step (m : Machine) : m.step.listing = m.listingAfter m.listing :=
  (congrArg listing m.step_eq_rehoused).trans rfl

/-! ## Cycles -/

/-- A break is obeyed whatever the arrays are. -/
theorem obey_rehoused : (m.rehoused s cursor listing m.interrupted).obey =
    m.obey.rehoused s cursor listing m.obey.interrupted := by
  cases broken : m.interrupted with
  | false =>
    rw [obey_of_quiet broken, obey_of_quiet (m := m.rehoused s cursor listing false) rfl, broken]
  | true =>
    unfold obey
    rw [broken]
    rfl

/-- **Nor does a cycle**, if the same waits to be shown and to be obeyed. -/
theorem cycle_rehoused
    (reads : ∀ id, (m.rehoused s cursor m.listing m.interrupted).array? id = m.array? id) :
    (m.rehoused s cursor m.listing m.interrupted).cycle =
      (m.cycle.1, m.cycle.2.rehoused (ArrayCall.applyAll m.arrayCallsNext s) cursor
        m.cycle.2.listing m.cycle.2.interrupted) := by
  have stepped : (m.rehoused s cursor m.listing m.interrupted).step =
      m.step.rehoused (ArrayCall.applyAll m.arrayCalls s) cursor m.step.listing
        m.step.interrupted := by
    rw [step_rehoused reads, listing_step, interrupted_step]
  obtain ⟨config, store, session, board, random, line, stage, output, running, cursor', listing,
    interrupted⟩ := m
  match output, listing, running, interrupted with
  | _ :: _, _, _, _ | [], some _, _, _ | [], none, false, true | [], none, false, false
  | [], none, true, true => rfl
  | [], none, true, false =>
    cases stage with
    | awaiting => rfl
    | search | enumerate | execute | advance | sleeping | terminate =>
      exact congrArg (Prod.mk none) stepped

theorem arrays_cycle (m : Machine) :
    m.cycle.2.arrays = ArrayCall.applyAll m.arrayCallsNext m.arrays := by
  have own : (m.rehoused m.arrays m.cursor m.listing m.interrupted).cycle = _ :=
    cycle_rehoused fun _ => rfl
  exact congrArg (fun made => arrays made.2) own

/-! ## Calls of the host -/

theorem arrays_execute (cycles : Nat) (m : Machine) :
    (m.execute cycles).2.arrays = ArrayCall.applyAll (arrayCallsIn cycles m) m.arrays := by
  induction cycles generalizing m with
  | zero => rfl
  | succ cycles ih =>
    have next := m.arrays_cycle
    unfold arrayCallsIn
    rcases made : m.cycle with ⟨_ | e, m'⟩
    · rw [made] at next
      rw [execute_succ_of_silent cycles made, ih, next]
      exact (ArrayCall.applyAll_append _ _ _).symm
    · rw [execute_succ_of_told cycles made]
      rw [arrayCallsNext, made] at next
      exact next

/-- Of the editor's commands only `run` touches the arrays. -/
theorem arrays_edit (m : Machine) (e : Edit) :
    (m.edit e).arrays = if e = .run then m.arrays.1.freeAll m.arrays.2 else m.arrays := by
  by_cases run : e = .run
  · rw [if_pos run, run]
    rfl
  · rw [if_neg run]
    by_cases clear : e = .clear
    · rw [clear]
      rfl
    · obtain ⟨store, cursor, listing, same⟩ := m.edit_eq run clear
      rw [same]
      rfl

theorem arrays_receive (m : Machine) (t : Text) :
    (m.receive t).2.arrays =
      if m.StartsRun (.receive t) then m.arrays.1.freeAll m.arrays.2 else m.arrays := by
  have received := m.received t
  generalize (m.receive t).1 = used, (m.receive t).2 = m' at received
  cases received with
  | broken broken => exact (if_neg fun h => h.2.1 broken).symm
  | edited clean rests =>
    rw [arrays_edit]
    by_cases run : Edit.ofText t.trim = .run
    · rw [if_pos run, if_pos ⟨rests, clean, run⟩]
      rfl
    · rw [if_neg run, if_neg fun h => run h.2.2]
      rfl
  | taken _ runs | ignored _ runs =>
    exact (if_neg fun h => Bool.false_ne_true (h.1.symm.trans runs)).symm

/-- **What a call of the host does to the arrays.** -/
theorem arrays_call (m : Machine) (k : HostCall) :
    (m.call k).2.arrays = ArrayCall.applyAll (m.arrayCallsBy k) m.arrays := by
  cases k with
  | receive t =>
    unfold arrayCallsBy
    refine (m.arrays_receive t).trans ?_
    dsimp only
    split <;> rfl
  | execute cycles => exact arrays_execute cycles m
  | interrupt | service | change => rfl

theorem arrayCallsBy_start {k : HostCall} (starts : m.StartsRun k) :
    m.arrayCallsBy k = [.freeAll] := by
  cases k with
  | receive t => exact if_pos starts
  | execute | interrupt | service | change => exact starts.elim

/-- To start a run takes no block into use. -/
theorem last_start {k : HostCall} (starts : m.StartsRun k) :
    (m.call k).2.arrays.2.last = m.arrays.2.last := by
  rw [arrays_call, arrayCallsBy_start starts]
  exact (ArrayTable.foldl_free_same _ m.arrays).2

end Machine

end LineScript
