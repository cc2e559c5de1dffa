import LineScript.Proofs.Machine.Sound
/-!
# Cycles and calls

A cycle does one of six things. `Cycled` names them with the conditions under
which they are done, so that what is said of all a host may do is a case
analysis on them, carried over the cycles of a call by induction
(`execute_succ_of_told`, `execute_succ_of_silent`). `replies` is what a host
learns from calls, one after another.
-/

namespace LineScript

/-- What the reply tells, unless it only says that the cycles are used up. -/
def Reply.told? : Reply → Option Event
  | event .running => none
  | event e => some e
  | _ => none

/-- Whether a line is awaited. -/
def Stage.isAwaiting : Stage → Bool
  | awaiting _ _ => true
  | _ => false

theorem Stage.ne_awaiting {s : Stage} (busy : s.isAwaiting = false) (prompt : Text)
    (destination : Option Nat) : s ≠ awaiting prompt destination := by
  rintro rfl
  cases busy

namespace Machine

variable {m m' : Machine} {e : Event}

/-! ## Cycles -/

/-- **What a cycle tells, and the machine after it.** -/
inductive Cycled (m : Machine) : Option Event → Machine → Prop where
  /-- What was printed is shown first. -/
  | print : m.output ≠ [] → Cycled m (some (.print m.output)) { m with output := [] }
  /-- A pending listing is shown next. -/
  | list {l : Listing} : m.output = [] → m.listing = some l →
      Cycled m (some (.list l)) { m with listing := none }
  /-- A machine that does not run forgets a break. -/
  | stopped : m.output = [] → m.listing = none → m.running = false →
      Cycled m (some .stopped) { m with interrupted := false }
  /-- A break ends what runs, whatever its stage. -/
  | broken : m.output = [] → m.listing = none → m.running = true → m.interrupted = true →
      Cycled m none { m with interrupted := false }.terminate
  /-- A machine that awaits a line goes on asking for it. -/
  | input {prompt : Text} {destination : Option Nat} : m.output = [] → m.listing = none →
      m.running = true → m.interrupted = false → m.stage = .awaiting prompt destination →
      Cycled m (some (.input prompt)) m
  /-- Any other machine makes a step. -/
  | step : m.output = [] → m.listing = none → m.running = true → m.interrupted = false →
      (∀ prompt destination, m.stage ≠ .awaiting prompt destination) → Cycled m none m.step

/-- A cycle does one of these. -/
theorem cycled (m : Machine) : Cycled m m.cycle.1 m.cycle.2 := by
  obtain ⟨config, store, session, board, random, line, stage, output, running, cursor, listing,
    interrupted⟩ := m
  match output, listing, running, interrupted with
  | _ :: _, _, _, _ => exact .print (List.cons_ne_nil _ _)
  | [], some _, _, _ => exact .list rfl rfl
  | [], none, false, true | [], none, false, false => exact .stopped rfl rfl rfl
  | [], none, true, true => exact .broken rfl rfl rfl rfl
  | [], none, true, false =>
    cases stage with
    | awaiting => exact .input rfl rfl rfl rfl rfl
    | search | enumerate | execute | advance | sleeping | terminate =>
      exact .step rfl rfl rfl rfl fun _ _ => nofun

/-! ## Calls -/

/-- A cycle that tells something is the last of its call. -/
theorem execute_succ_of_told (n : Nat) (h : m.cycle = (some e, m')) :
    m.execute (n + 1) = (e, m') := by
  rw [execute, h]

/-- After any other the call goes on. -/
theorem execute_succ_of_silent (n : Nat) (h : m.cycle = (none, m')) :
    m.execute (n + 1) = m'.execute n := by
  rw [execute, h]

/-- The stages that a call of so many cycles does. -/
def stagesOf : (cycles : Nat) → Machine → List Stage
  | 0, _ => []
  | cycles + 1, m =>
    match m.cycle with
    | (some _, _) => []
    | (none, m') => m.obey.stage :: stagesOf cycles m'

/-- The stages that calls of so many cycles do. -/
def stagesIn : (cycles : List Nat) → Machine → List Stage
  | [], _ => []
  | n :: rest, m => stagesOf n m ++ stagesIn rest (m.execute n).2

/-! ## Entered lines -/

/-- The machine with an entered text in its input line. -/
def noting (m : Machine) (t : Text) : Machine :=
  { m with store := m.store.writeIfPresent m.store.inputSlot t }

theorem receive_of_break {t : Text} (h : breakChar ∈ t) : m.receive t = (false, m.interrupt) :=
  if_pos h

/-- Without a break, a machine that does not run takes a line for the editor. -/
theorem receive_of_stopped {t : Text} (h : breakChar ∉ t) (running : m.running = false) :
    m.receive t = (true, (m.noting t).edit (Edit.ofText t.trim)) := by
  rw [receive, if_neg h]
  exact if_neg (by simp [running])

/-- One that awaits a line takes it for its result. -/
theorem receive_of_awaiting {t prompt : Text} {destination : Option Nat} (h : breakChar ∉ t)
    (running : m.running = true) (stage : m.stage = .awaiting prompt destination) :
    m.receive t =
      (true, { m.noting t with
        stage := .advance (destination.map (·, (m.noting t).store.line m.store.inputSlot)) none }) := by
  rw [receive, if_neg h]
  dsimp only
  rw [if_pos running, stage]
  rfl

/-- And one that is busy takes none. -/
theorem receive_of_busy {t : Text} (h : breakChar ∉ t) (running : m.running = true)
    (busy : ∀ prompt destination, m.stage ≠ .awaiting prompt destination) :
    m.receive t = (false, m) := by
  rw [receive, if_neg h]
  dsimp only
  rw [if_pos running]
  cases stage : m.stage with
  | awaiting prompt destination => exact absurd stage (busy prompt destination)
  | search | enumerate | execute | advance | sleeping | terminate => rfl

/-- **What becomes of an entered line.** -/
inductive Received (m : Machine) (t : Text) : (used : Bool) → Machine → Prop where
  | broken : breakChar ∈ t → Received m t false m.interrupt
  | edited : breakChar ∉ t → m.running = false →
      Received m t true ((m.noting t).edit (Edit.ofText t.trim))
  | taken {prompt : Text} {destination : Option Nat} : breakChar ∉ t → m.running = true →
      m.stage = .awaiting prompt destination →
      Received m t true { m.noting t with
        stage := .advance (destination.map (·, (m.noting t).store.line m.store.inputSlot)) none }
  | ignored : breakChar ∉ t → m.running = true →
      (∀ prompt destination, m.stage ≠ .awaiting prompt destination) → Received m t false m

/-- One of these becomes of it. -/
theorem received (m : Machine) (t : Text) : Received m t (m.receive t).1 (m.receive t).2 := by
  by_cases clean : breakChar ∈ t
  · rw [receive_of_break clean]
    exact .broken clean
  · cases running : m.running with
    | false =>
      rw [receive_of_stopped clean running]
      exact .edited clean running
    | true =>
      cases stage : m.stage with
      | awaiting prompt destination =>
        rw [receive_of_awaiting clean running stage]
        exact .taken clean running stage
      | search | enumerate | execute | advance | sleeping | terminate =>
        have busy : ∀ prompt destination, m.stage ≠ .awaiting prompt destination := by
          simp [stage]
        rw [receive_of_busy clean running busy]
        exact .ignored clean running busy

/-- The editor changes no more than the lines, its cursor and what is to be
listed, unless it starts or ends a run. -/
theorem edit_eq (m : Machine) {e : Edit} (run : e ≠ .run) (clear : e ≠ .clear) :
    ∃ store cursor listing, m.edit e = { m with store, cursor, listing } := by
  cases e with
  | run => exact absurd rfl run
  | clear => exact absurd rfl clear
  | list => exact ⟨m.store, m.cursor, _, rfl⟩
  | set number =>
    dsimp only [edit, moveCursor]
    split
    · split
      · exact ⟨m.store, _, m.listing, rfl⟩
      · exact ⟨m.store, m.cursor, m.listing, rfl⟩
    · exact ⟨m.store, m.cursor, m.listing, rfl⟩
  | insert | delete => exact ⟨_, m.cursor, m.listing, rfl⟩
  | write t => exact ⟨_, _, m.listing, rfl⟩

/-- Whether a call starts a run. -/
def StartsRun (m : Machine) : HostCall → Prop
  | .receive t => m.running = false ∧ breakChar ∉ t ∧ Edit.ofText t.trim = .run
  | _ => False

instance (m : Machine) (k : HostCall) : Decidable (m.StartsRun k) :=
  match k with
  | .receive t =>
    inferInstanceAs (Decidable (m.running = false ∧ breakChar ∉ t ∧ Edit.ofText t.trim = .run))
  | .execute _ | .interrupt | .service | .change _ => inferInstanceAs (Decidable False)

/-! ## Sequences of calls -/

theorem calls_cons (m : Machine) (k : HostCall) (ks : List HostCall) :
    m.calls (k :: ks) = (m.call k).2.calls ks := rfl

/-- What a host learns from some calls. -/
def replies : (m : Machine) → List HostCall → List Reply
  | _, [] => []
  | m, k :: rest => (m.call k).1 :: replies (m.call k).2 rest

end Machine

end LineScript
