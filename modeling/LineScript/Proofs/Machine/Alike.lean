import LineScript.Proofs.Machine.Arrays
/-!
# Machines with the same arrays in other blocks

Two machines may hold the same arrays in different blocks, for the count of
handles tells how many there were before. Such machines are alike, and go on
being alike (`Alike.step`); if the same waits to be shown and obeyed they give
a host the same answers, as long as it does not use the editor
(`Twins.replies`).
-/

namespace LineScript

open ArrayTable

namespace Machine

variable {m m' n n' : Machine} {f : Contents} {calls : List ArrayCall} {s : ArrayTable × Heap}
  {cursor : Nat} {listing : Option Listing} {interrupted : Bool}

/-- An array as its elements and the bits of each, read off the map. -/
theorem array?_of_holds (holds : m.arrays.1.Holds m.arrays.2 f) (id : Nat) :
    m.array? id = (f id).map fun a => (a.2.map a.1.cut, 8 * a.1.bytes) := by
  have elements := holds.elements_eq id
  unfold array?
  cases array : f id with
  | none =>
    rw [show m.session.arrays.get? id = none from holds.empty id array]
    rfl
  | some a =>
    obtain ⟨w, values⟩ := a
    obtain ⟨handle, entry, -⟩ := holds.held id w values array
    rw [array] at elements
    rw [show m.session.arrays.get? id = _ from entry,
      show m.session.arrays.elements m.board.heap id = _ from elements]
    rfl

/-- The second machine is the first with its arrays in other blocks, and
perhaps with another cursor, pending listing and break. -/
structure Alike (f : Contents) (m m' : Machine) : Prop where
  same : m' = m.rehoused m'.arrays m'.cursor m'.listing m'.interrupted
  capacity : m'.arrays.1.capacity = m.arrays.1.capacity
  holds : m.arrays.1.Holds m.arrays.2 f
  holds' : m'.arrays.1.Holds m'.arrays.2 f

/-- Whether the handles suffice for some calls. -/
def Few (calls : List ArrayCall) (s : ArrayTable × Heap) : Prop :=
  s.2.last.toNat + ArrayCall.allocationsOf calls s < 2 ^ 32

namespace Alike

/-- Their arrays read the same. -/
theorem reads (h : Alike f m m') (id : Nat) (listing : Option Listing) (interrupted : Bool) :
    (m.rehoused m'.arrays m'.cursor listing interrupted).array? id = m.array? id := by
  rw [array?_of_holds h.holds, array?_of_holds (f := f)]
  exact h.holds'

/-- They stay alike if the same is done to the arrays of both. -/
theorem done (h : Alike f m m') (first : n.arrays = ArrayCall.applyAll calls m.arrays)
    (second : n' = n.rehoused (ArrayCall.applyAll calls m'.arrays) cursor listing interrupted)
    (few : Few calls m.arrays) (few' : Few calls m'.arrays) : ∃ f, Alike f n n' := by
  obtain ⟨holds, capacity⟩ := ArrayCall.holds_applyAll h.holds calls few
  obtain ⟨holds', capacity'⟩ := ArrayCall.holds_applyAll h.holds' calls few'
  have arrays : n'.arrays = ArrayCall.applyAll calls m'.arrays := congrArg Machine.arrays second
  rw [h.capacity] at holds'
  refine ⟨_, ⟨?_, ?_, first ▸ holds, arrays ▸ holds'⟩⟩
  · rw [arrays, second]
    rfl
  · rw [first, arrays]
    exact capacity'.trans (h.capacity.trans capacity.symm)

/-- **They make the same step.** -/
theorem step (h : Alike f m m') (few : Few m.arrayCalls m.arrays)
    (few' : Few m'.arrayCalls m'.arrays) : ∃ f, Alike f m.step m'.step := by
  have calls : m'.arrayCalls = m.arrayCalls := (congrArg arrayCalls h.same).trans rfl
  rw [calls] at few'
  exact h.done m.arrays_step
    ((congrArg Machine.step h.same).trans (step_rehoused fun id => h.reads id _ _)) few few'

end Alike

/-! ## Several steps -/

theorem few_nil (s : ArrayTable × Heap) : Few [] s := s.2.last.toNat_lt

theorem few_append {later : List ArrayCall} (h : Few (calls ++ later) s) :
    Few calls s ∧ Few later (ArrayCall.applyAll calls s) := by
  rw [Few, ArrayCall.allocationsOf_append, ← Nat.add_assoc] at h
  have few : Few calls s := Nat.lt_of_le_of_lt (Nat.le_add_right _ _) h
  exact ⟨few, by rwa [Few, ArrayCall.toNat_last_applyAll calls s few]⟩

/-- **Alike machines make the same steps.** -/
theorem Alike.iterate_step (h : Alike f m m') (k : Nat)
    (few : Few (arrayCallsDuring k m) m.arrays) (few' : Few (arrayCallsDuring k m') m'.arrays) :
    ∃ f, Alike f (Machine.step^[k] m) (Machine.step^[k] m') := by
  induction k generalizing f m m' with
  | zero => exact ⟨f, h⟩
  | succ k ih =>
    obtain ⟨now, later⟩ := few_append few
    obtain ⟨now', later'⟩ := few_append few'
    obtain ⟨f, next⟩ := h.step now now'
    rw [← arrays_step] at later later'
    exact ih next later later'

/-! ## Calls of a host -/

/-- Alike machines with the same to show and to obey. -/
structure Twins (m m' : Machine) : Prop where
  alike : ∃ f, Alike f m m'
  listing : m'.listing = m.listing
  interrupted : m'.interrupted = m.interrupted

namespace Twins

theorem same (h : Twins m m') : m' = m.rehoused m'.arrays m'.cursor m.listing m.interrupted := by
  obtain ⟨f, alike⟩ := h.alike
  have same := alike.same
  rwa [h.listing, h.interrupted] at same

theorem done (h : Twins m m') (first : n.arrays = ArrayCall.applyAll calls m.arrays)
    (second : n' = n.rehoused (ArrayCall.applyAll calls m'.arrays) cursor n.listing n.interrupted)
    (few : Few calls m.arrays) (few' : Few calls m'.arrays) : Twins n n' := by
  obtain ⟨f, alike⟩ := h.alike
  exact ⟨alike.done first second few few', by rw [second]; rfl, by rw [second]; rfl⟩

/-- They stay so if nothing is done to the arrays. -/
theorem untouched (h : Twins m m') (first : n.arrays = m.arrays)
    (second : n' = n.rehoused m'.arrays cursor n.listing n.interrupted) : Twins n n' :=
  h.done (show n.arrays = ArrayCall.applyAll [] m.arrays from first) second (few_nil _) (few_nil _)

/-- They make the same cycle. -/
theorem cycle (h : Twins m m') :
    m'.arrayCallsNext = m.arrayCallsNext ∧ m'.cycle.1 = m.cycle.1 ∧
      (Few m.arrayCallsNext m.arrays → Few m'.arrayCallsNext m'.arrays →
        Twins m.cycle.2 m'.cycle.2) := by
  obtain ⟨f, alike⟩ := h.alike
  have made := (congrArg Machine.cycle h.same).trans
    (cycle_rehoused fun id => alike.reads id m.listing m.interrupted)
  have told : m'.cycle.1 = m.cycle.1 := by rw [made]
  have obeyed : m'.obey.arrayCalls = m.obey.arrayCalls := by
    rw [h.same, obey_rehoused]
    rfl
  have calls : m'.arrayCallsNext = m.arrayCallsNext := by
    rw [arrayCallsNext, arrayCallsNext, told, obeyed]
  refine ⟨calls, told, fun few few' => ?_⟩
  exact h.done m.arrays_cycle (congrArg Prod.snd made) few (calls ▸ few')

/-- They answer a call of `execute` alike. -/
theorem execute (h : Twins m m') (cycles : Nat) (few : Few (arrayCallsIn cycles m) m.arrays)
    (few' : Few (arrayCallsIn cycles m') m'.arrays) :
    (m'.execute cycles).1 = (m.execute cycles).1 ∧
      Twins (m.execute cycles).2 (m'.execute cycles).2 := by
  induction cycles generalizing m m' with
  | zero => exact ⟨rfl, h⟩
  | succ cycles ih =>
    obtain ⟨calls, told, next⟩ := h.cycle
    unfold arrayCallsIn at few few'
    have arrays := m.arrays_cycle
    have arrays' := m'.arrays_cycle
    rcases made : m.cycle with ⟨_ | e, n⟩
    · have made' : m'.cycle = (none, m'.cycle.2) := Prod.ext (by rw [told, made]) rfl
      rw [made] at few next arrays
      rw [made'] at few' next arrays'
      obtain ⟨now, later⟩ := few_append few
      obtain ⟨now', later'⟩ := few_append few'
      rw [← arrays] at later
      rw [← arrays'] at later'
      rw [execute_succ_of_silent cycles made, execute_succ_of_silent cycles made']
      exact ih (next now now') later later'
    · have made' : m'.cycle = (some e, m'.cycle.2) := Prod.ext (by rw [told, made]) rfl
      have none : m.arrayCallsNext = [] := by rw [arrayCallsNext, made]
      rw [made] at few
      rw [made'] at few'
      rw [none] at calls next
      rw [calls] at next
      rw [execute_succ_of_told cycles made, execute_succ_of_told cycles made']
      exact ⟨rfl, by rw [made] at next; exact next few few'⟩

end Twins

/-- Whether a call does not use the editor, but to start a run. -/
def SparesEditor (m : Machine) : HostCall → Prop
  | .receive t => m.running = true ∨ breakChar ∈ t ∨ Edit.ofText t.trim = .run
  | _ => True

/-- A line that is not for the editor, or starts a run, is taken whatever the arrays are. -/
theorem receive_rehoused {t : Text} (clean : breakChar ∉ t)
    (spares : m.running = true ∨ Edit.ofText t.trim = .run) :
    (m.rehoused s cursor listing interrupted).receive t =
      ((m.receive t).1, (m.receive t).2.rehoused
        (ArrayCall.applyAll (m.arrayCallsBy (.receive t)) s) cursor listing interrupted) := by
  unfold arrayCallsBy
  cases running : m.running with
  | true =>
    have waits : ¬ m.StartsRun (.receive t) := fun h => Bool.false_ne_true (h.1.symm.trans running)
    dsimp only
    rw [if_neg waits]
    cases stage : m.stage with
    | awaiting prompt destination =>
      rw [receive_of_awaiting clean running stage,
        receive_of_awaiting (m := m.rehoused s cursor listing interrupted) clean running stage]
      rfl
    | search | enumerate | execute | advance | sleeping | terminate =>
      rw [receive_of_busy clean running fun _ _ => by simp [stage],
        receive_of_busy (m := m.rehoused s cursor listing interrupted) clean running
          fun _ _ => by simp [rehoused, stage]]
      rfl
  | false =>
    have run : Edit.ofText t.trim = .run := spares.resolve_left (by simp [running])
    have starts : m.StartsRun (.receive t) := ⟨running, clean, run⟩
    dsimp only
    rw [if_pos starts, receive_of_stopped clean running,
      receive_of_stopped (m := m.rehoused s cursor listing interrupted) clean running, run]
    rfl

/-- Alike machines start a run alike. -/
theorem Alike.start (h : Alike f m m') {k : HostCall} (starts : m.StartsRun k) :
    ∃ f, Alike f (m.call k).2 (m'.call k).2 := by
  cases k with
  | receive t =>
    have taken := (congrArg (fun m => Machine.receive m t) h.same).trans
      (receive_rehoused starts.2.1 (.inr starts.2.2))
    have few : ∀ s, Few (m.arrayCallsBy (.receive t)) s := fun s =>
      arrayCallsBy_start starts ▸ s.2.last.toNat_lt
    exact h.done (m.arrays_call (.receive t)) (congrArg (fun r => r.2) taken) (few _) (few _)
  | execute | interrupt | service | change => exact starts.elim

namespace Twins

/-- They take an entered line alike. -/
theorem receive (h : Twins m m') (t : Text) (spares : m.SparesEditor (.receive t))
    (few : Few (m.arrayCallsBy (.receive t)) m.arrays)
    (few' : Few (m'.arrayCallsBy (.receive t)) m'.arrays) :
    (m'.receive t).1 = (m.receive t).1 ∧ Twins (m.receive t).2 (m'.receive t).2 := by
  by_cases clean : breakChar ∈ t
  · rw [receive_of_break clean, receive_of_break clean]
    exact ⟨rfl, h.untouched rfl ((congrArg Machine.interrupt h.same).trans rfl)⟩
  · have spares : m.running = true ∨ Edit.ofText t.trim = .run := by
      rcases spares with runs | broken | run
      · exact .inl runs
      · exact absurd broken clean
      · exact .inr run
    have calls : m'.arrayCallsBy (.receive t) = m.arrayCallsBy (.receive t) :=
      (congrArg (fun m => arrayCallsBy m (.receive t)) h.same).trans rfl
    have own : (m.rehoused m.arrays m.cursor m.listing m.interrupted).receive t = _ :=
      receive_rehoused clean spares
    have taken := (congrArg (fun m => Machine.receive m t) h.same).trans (receive_rehoused clean spares)
    have listing : (m.receive t).2.listing = m.listing := congrArg (fun r => r.2.listing) own
    have interrupted : (m.receive t).2.interrupted = m.interrupted :=
      congrArg (fun r => r.2.interrupted) own
    rw [calls] at few'
    have second := congrArg Prod.snd taken
    rw [← listing, ← interrupted] at second
    exact ⟨by rw [taken], h.done (m.arrays_call (.receive t)) second few few'⟩

/-- **They answer a call of the host alike.** -/
theorem call (h : Twins m m') (k : HostCall) (spares : m.SparesEditor k)
    (few : Few (m.arrayCallsBy k) m.arrays) (few' : Few (m'.arrayCallsBy k) m'.arrays) :
    (m'.call k).1 = (m.call k).1 ∧ Twins (m.call k).2 (m'.call k).2 := by
  cases k with
  | receive t =>
    obtain ⟨used, twins⟩ := h.receive t spares few few'
    exact ⟨congrArg Reply.received used, twins⟩
  | execute cycles =>
    obtain ⟨told, twins⟩ := h.execute cycles few few'
    exact ⟨congrArg Reply.event told, twins⟩
  | interrupt =>
    exact ⟨rfl, h.untouched rfl ((congrArg Machine.interrupt h.same).trans rfl)⟩
  | service =>
    exact ⟨rfl, h.untouched rfl ((congrArg Machine.service h.same).trans rfl)⟩
  | change c =>
    have changed : m'.change c = ((m.change c).1,
        (m.change c).2.rehoused m'.arrays m'.cursor m.listing m.interrupted) :=
      (congrArg (fun m => Machine.change m c) h.same).trans rfl
    exact ⟨congrArg (fun r => r.1) changed, h.untouched rfl (congrArg (fun r => r.2) changed)⟩

end Twins

/-- Whether calls do not use the editor, but to start runs. -/
def LeavesEditor : (m : Machine) → List HostCall → Prop
  | _, [] => True
  | m, k :: rest => m.SparesEditor k ∧ LeavesEditor (m.call k).2 rest

/-- **They give a host the same answers.** -/
theorem Twins.replies (h : Twins m m') (ks : List HostCall) (spares : m.LeavesEditor ks)
    (few : m.arrays.2.last.toNat + m.allocations ks < 2 ^ 32)
    (few' : m'.arrays.2.last.toNat + m'.allocations ks < 2 ^ 32) :
    m'.replies ks = m.replies ks ∧ Twins (m.calls ks) (m'.calls ks) := by
  induction ks generalizing m m' with
  | nil => exact ⟨rfl, h⟩
  | cons k rest ih =>
    obtain ⟨now, later⟩ := spares
    rw [allocations, ← Nat.add_assoc] at few few'
    have few₁ : Few (m.arrayCallsBy k) m.arrays := Nat.lt_of_le_of_lt (Nat.le_add_right _ _) few
    have few₁' : Few (m'.arrayCallsBy k) m'.arrays := Nat.lt_of_le_of_lt (Nat.le_add_right _ _) few'
    rw [← ArrayCall.toNat_last_applyAll _ _ few₁, ← arrays_call] at few
    rw [← ArrayCall.toNat_last_applyAll _ _ few₁', ← arrays_call] at few'
    obtain ⟨reply, twins⟩ := h.call k now few₁ few₁'
    obtain ⟨replies, twins⟩ := ih twins later few few'
    rw [Machine.replies, Machine.replies, reply, replies]
    exact ⟨rfl, twins⟩

end Machine

end LineScript
