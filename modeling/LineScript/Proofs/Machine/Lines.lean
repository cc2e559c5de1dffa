import LineScript.Proofs.Machine.Calls
import LineScript.Proofs.Machine.Stepped
import LineScript.Proofs.Store.Clean
/-!
# The lines of a machine

Whatever a machine or its host does to the lines is a sequence of changes of
the store (`evolves_call`). So what every change keeps holds of the lines of
any machine a host can come by: they are clean, and each is as wide as the
configuration says.
-/

namespace LineScript

namespace Machine

variable {c : Config} {m m' : Machine} {told : Option Event}

/-! ## What is done to them -/

/-- The write of a result. -/
theorem evolves_advance (m : Machine) (write : Option (Nat × Text)) (jump : Option Nat) :
    m.store.Evolves (m.advance write jump).store := by
  unfold advance
  dsimp only
  split
  · exact Store.evolves_writeIfPresent _ _ _
  · exact .refl _

/-- **A step changes the lines as a host could.** -/
theorem evolves_step (m : Machine) : m.store.Evolves m.step.store := by
  have stepped := m.stepped
  generalize m.step = m' at stepped
  cases stepped with
  | past | read | awaits | slept | ended => exact .refl _
  | found | passed => exact m.store.evolves_terminateLabel m.line
  | @performed i v => exact (m.framed_perform i v).store
  | advanced => exact m.evolves_advance _ _
  | woken => exact .refl _

theorem evolves_cycle (m : Machine) : m.store.Evolves m.cycle.2.store := by
  have cycled := m.cycled
  generalize m.cycle.1 = told, m.cycle.2 = m' at cycled
  cases cycled with
  | print | list | stopped | broken | input => exact .refl _
  | step => exact m.evolves_step

theorem evolves_execute (m : Machine) (cycles : Nat) :
    m.store.Evolves (m.execute cycles).2.store := by
  induction cycles generalizing m with
  | zero => exact .refl _
  | succ cycles ih =>
    have next := m.evolves_cycle
    rcases made : m.cycle with ⟨_ | e, m'⟩
    · rw [made] at next
      rw [execute_succ_of_silent cycles made]
      exact next.trans (ih m')
    · rw [made] at next
      rw [execute_succ_of_told cycles made]
      exact next

theorem evolves_edited (m : Machine) (change : Store.Change) :
    m.store.Evolves (m.edited (m.store.apply change)).store := .apply m.store change

theorem evolves_edit (m : Machine) (e : Edit) : m.store.Evolves (m.edit e).store := by
  cases e with
  | run => exact LabelTable.evolves_rebuild (m.session.reset m.board.heap).1.labels m.store 1
  | clear => exact m.store.evolves_clear
  | set number =>
    dsimp only [edit, moveCursor]
    split
    · split <;> exact .refl _
    · exact .refl _
  | insert => exact m.evolves_edited (.insert m.cursor m.lastLine)
  | delete => exact m.evolves_edited (.remove m.cursor m.lastLine)
  | list => exact .refl _
  | write t => exact m.evolves_edited (.write m.cursor t)

theorem evolves_receive (m : Machine) (t : Text) : m.store.Evolves (m.receive t).2.store := by
  have entered : m.store.Evolves (m.noting t).store := Store.evolves_writeIfPresent _ _ _
  have received := m.received t
  generalize (m.receive t).1 = used, (m.receive t).2 = m' at received
  cases received with
  | broken | ignored => exact .refl _
  | edited => exact entered.trans ((m.noting t).evolves_edit _)
  | taken => exact entered

/-- **So does every call.** -/
theorem evolves_call (m : Machine) (k : HostCall) : m.store.Evolves (m.call k).2.store := by
  cases k with
  | receive t => exact m.evolves_receive t
  | execute cycles => exact m.evolves_execute cycles
  | interrupt | service => exact .refl _
  | change change => exact .apply m.store change

/-! ## Every reachable machine -/

/-- The lines of a machine come from a new store. -/
theorem Reachable.evolves (h : Reachable c m) : (Store.new c.lines c.row).Evolves m.store := by
  induction h with
  | new made =>
    simp only [Machine.new, Config.validate] at made
    split at made
    · cases made
    · cases made
      exact .refl _
  | @call m k _ ih => exact ih.trans (m.evolves_call k)

/-- Each is as wide as the configuration says. -/
theorem Reachable.row (h : Reachable c m) : m.store.row = c.row := h.evolves.shape.row

/-- **The lines of a machine are clean**, whatever its host did. -/
theorem Reachable.clean (h : Reachable c m) : m.store.Clean := by
  have wide := h.sound.valid.row_ge
  exact (Store.clean_new c.lines (by omega)).evolves h.evolves

end Machine

end LineScript
