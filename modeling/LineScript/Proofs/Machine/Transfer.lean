import LineScript.Proofs.Machine.Instruction
import LineScript.Proofs.Machine.Lines
import LineScript.Proofs.Machine.Sweep
/-!
# Lines on a chip

A line is saved with all the bytes of its slot and loaded as the text those
bytes stand for. A clean slot is the slot of its own text, so nothing is lost
on the way (`Slot.ofText_textOfBytes`), and lines that were saved are loaded
as they were then, whatever became of them in between (`load_after_save`). No
other line changes, and no other byte of the chip.

A transfer that cannot go on keeps the lines it has moved and moves no other
(`partial_transfer`).
-/

namespace LineScript

namespace Transfer

variable {s s₀ : Store} {e : Eeprom} {chip count line : Nat}

/-! ## Chips -/

/-- Saving leaves the chips sound, line by line, -/
theorem sound_saveLine (h : e.Sound) (chip : Nat) (s : Store) (line : Nat) :
    (saveLine chip s line e).2.Sound := by
  unfold saveLine
  split
  · exact h
  · next bytes _ =>
    have written := h.write chip (line * s.row) bytes
    split
    all_goals
      next made =>
        rw [made] at written
        exact written

/-- as far as it gets. -/
theorem sound_save (h : e.Sound) (chip : Nat) (s : Store) (count line : Nat) :
    (save chip s count line e).2.Sound :=
  sweep_keeps (fun k _ _ _ sound => sound_saveLine sound chip s k) h

theorem chips_loadLine (chip line : Nat) (x : Store × Eeprom) :
    (loadLine chip line x).2.2.chips = x.2.chips := by
  obtain ⟨s, e⟩ := x
  unfold loadLine
  dsimp only
  split
  · rfl
  · next read =>
    split
    all_goals exact Eeprom.chips_read read

/-- Loading changes none of them. -/
theorem chips_load (chip count line : Nat) (s : Store) (e : Eeprom) :
    (load chip count line s e).2.2.chips = e.chips :=
  sweep_keeps (P := fun x : Store × Eeprom => x.2.chips = e.chips)
    (fun k x _ _ before => (chips_loadLine chip k x).trans before) rfl

/-! ## Saving -/

/-- **What is saved**: the bytes of the lines, each at its place, and no others. -/
theorem save_eq (count line : Nat) (clean : s.Clean) (small : chip < chipCount)
    (sound : e.Sound) (serves : e.Serves count) (saves : e.Saves) (lines : line + count ≤ s.size)
    (inside : (line + count) * s.row ≤ chipSize) :
    (save chip s count line e).2.Sound ∧
    (∀ j slot, line ≤ j → j < line + count → s.slots[j]? = some slot → ∀ i < s.row,
      (save chip s count line e).2.byte? chip (j * s.row + i) = slot[i]?) ∧
    (∀ k a, k ≠ chip ∨ a < line * s.row ∨ (line + count) * s.row ≤ a →
      (save chip s count line e).2.byte? k a = e.byte? k a) := by
  have saved := (saving_sweep clean sound saves (stopsAt_end small serves lines inside)).2
  exact ⟨saved.sound, saved.records, saved.others⟩

/-! ## Loading -/

/-- **What is loaded**: the lines that are on the chip, each to its place, and
no others. -/
theorem load_eq (count line : Nat) (small : chip < chipCount) {c : Chip} (held : e.chips[chip]? = some c)
    (serves : e.Serves count) (shape : Store.SameShape s₀ s) (clean : s₀.Clean)
    (lines : line + count ≤ s₀.size) (inside : (line + count) * s₀.row ≤ chipSize)
    (saved : ∀ j slot, line ≤ j → j < line + count → s₀.slots[j]? = some slot →
      c.bytesAt (j * s₀.row) s₀.row = slot) :
    ∀ j, (load chip count line s e).2.1.slots[j]? =
      if line ≤ j ∧ j < line + count then s₀.slots[j]? else s.slots[j]? := by
  have size : s.size = s₀.size := shape.size
  have row : s.row = s₀.row := shape.row
  have stops : StopsAt (Blocked s e chip line) line count (line + count) :=
    stopsAt_end small serves (by omega) (by rw [row]; exact inside)
  have loaded := (loading_sweep stops).2
  intro j
  by_cases within : line ≤ j ∧ j < line + count
  · obtain ⟨slot, there⟩ := s₀.exists_slot (show j < s₀.size by omega)
    have record : e.peek chip (j * s₀.row) s₀.row = slot := by
      rw [Eeprom.peek, if_pos ((record_le within.2).trans inside), held]
      exact saved j slot within.1 within.2 there
    rw [loaded.lines j within.1 within.2, if_pos within, there, row, record,
      Slot.ofText_textOfBytes (clean.getElem there)]
  · rw [loaded.others j (by omega), if_neg within]

end Transfer

namespace Machine

variable {c : Config} {m m' : Machine} {chip first last : Nat}

/-! ## The chips of a machine -/

/-- No command leaves unsound chips behind. -/
theorem sound_eeprom_perform (h : m.board.eeprom.Sound) (i : Instruction) (v : Sources) :
    (m.perform i v).2.board.eeprom.Sound := by
  unfold perform
  cases i.command with
  | save => exact Transfer.sound_save h _ _ _ _
  | load =>
    have same := Transfer.chips_load (v.number 0) (v.number 2 + 1 - v.number 1) (v.number 1)
      m.store m.board.eeprom
    exact ⟨same.symm ▸ h.count, same.symm ▸ h.size⟩
  | call | branch | pointer | picture =>
    dsimp only
    split <;> exact h
  | loop | count =>
    dsimp only [enterLoop]
    split <;> exact h
  | gpio | sound | interruptSound =>
    dsimp only [withArray]
    split <;> exact h
  | _ => exact h

/-- Nor does any other stage. -/
theorem sound_eeprom_step (h : m.board.eeprom.Sound) : m.step.board.eeprom.Sound := by
  have stepped := m.stepped
  generalize m.step = m' at stepped
  cases stepped with
  | @performed i v => exact sound_eeprom_perform h i v
  | slept _ _ clock | woken _ _ clock => exact h
  | past | found | passed | read | advanced | awaits | ended => exact h

theorem sound_eeprom_execute (h : m.board.eeprom.Sound) (cycles : Nat) :
    (m.execute cycles).2.board.eeprom.Sound := by
  induction cycles generalizing m with
  | zero => exact h
  | succ cycles ih =>
    have next : m.cycle.2.board.eeprom.Sound := by
      have cycled := m.cycled
      generalize m.cycle.1 = told, m.cycle.2 = m' at cycled
      cases cycled with
      | print | list | stopped | broken | input => exact h
      | step => exact sound_eeprom_step h
    rcases made : m.cycle with ⟨_ | e, m'⟩
    · rw [made] at next
      rw [execute_succ_of_silent cycles made]
      exact ih next
    · rw [made] at next
      rw [execute_succ_of_told cycles made]
      exact next

theorem eeprom_edit (m : Machine) (e : Edit) : (m.edit e).board.eeprom = m.board.eeprom := by
  by_cases run : e = .run
  · rw [run]
    rfl
  · by_cases clear : e = .clear
    · rw [clear]
      rfl
    · obtain ⟨store, cursor, listing, same⟩ := m.edit_eq run clear
      rw [same]

/-- **The chips of a machine stay sound**, whatever its host does. -/
theorem sound_eeprom_call (h : m.board.eeprom.Sound) (k : HostCall) :
    (m.call k).2.board.eeprom.Sound := by
  cases k with
  | receive t =>
    change (m.receive t).2.board.eeprom.Sound
    have received := m.received t
    generalize (m.receive t).1 = used, (m.receive t).2 = m' at received
    cases received with
    | broken | taken | ignored => exact h
    | edited =>
      rw [eeprom_edit]
      exact h
  | execute cycles => exact sound_eeprom_execute h cycles
  | interrupt | service | change => exact h

/-! ## Save and load -/

/-- **What is loaded is what was saved.** Lines are saved to a chip, and
loaded from it again after anything was done to the lines, but nothing to that
chip. Then they hold byte for byte what they held when they were saved. Every
other line is left as the load found it, and every other byte of the chip as
the save did. -/
theorem load_after_save (h : Reachable c m) (sound : m.board.eeprom.Sound)
    (small : chip < chipCount) (ordered : first ≤ last) (inside : last < c.lines)
    (room : (last + 1) * c.row ≤ chipSize) (serves : m.board.eeprom.Serves (last + 1 - first))
    (saves : m.board.eeprom.Saves)
    (evolves : (m.saveLines chip first last).store.Evolves m'.store)
    (kept : m'.board.eeprom.chips[chip]? =
      (m.saveLines chip first last).board.eeprom.chips[chip]?)
    (serves' : m'.board.eeprom.Serves (last + 1 - first)) :
    (∀ line, first ≤ line → line ≤ last →
      (m'.loadLines chip first last).store.slots[line]? = m.store.slots[line]?) ∧
    (∀ line, line < first ∨ last < line →
      (m'.loadLines chip first last).store.slots[line]? = m'.store.slots[line]?) ∧
    (∀ address, address < first * c.row ∨ (last + 1) * c.row ≤ address →
      (m'.loadLines chip first last).board.eeprom.byte? chip address =
        m.board.eeprom.byte? chip address) := by
  have row := h.row
  have clean := h.clean
  have size : m.store.size = c.lines := h.sound.size
  have shape : m.store.SameShape m'.store := evolves.shape
  have upto : first + (last + 1 - first) = last + 1 := by omega
  obtain ⟨sound', within, others⟩ := Transfer.save_eq _ first clean small sound serves saves
    (by omega) (by rw [upto, row]; exact room)
  obtain ⟨held, there, whole⟩ := sound'.getElem? small
  have bytes : ∀ j slot, first ≤ j → j < first + (last + 1 - first) →
      m.store.slots[j]? = some slot → held.bytesAt (j * m.store.row) m.store.row = slot := by
    intro j slot low high slotHeld
    have length := (clean.getElem slotHeld).length
    have below : (j + 1) * m.store.row ≤ (last + 1) * m.store.row :=
      Nat.mul_le_mul_right _ (by omega)
    rw [Nat.succ_mul, row] at below
    rw [← length]
    refine Transfer.bytesAt_of_byte? there (by rw [length, row] at *; omega) fun i less => ?_
    rw [length]
    exact within j slot low high slotHeld i (length ▸ less)
  have loaded := Transfer.load_eq _ first small (kept.trans there) serves'
    shape clean (by omega) (by rw [upto, row]; exact room) bytes
  refine ⟨fun line low high => ?_, fun line other => ?_, fun address other => ?_⟩
  · exact (loaded line).trans (if_pos (by omega))
  · exact (loaded line).trans (if_neg (by omega))
  · have same : (m'.loadLines chip first last).board.eeprom.byte? chip address =
        (m.saveLines chip first last).board.eeprom.byte? chip address :=
      congrArg (·.bind (·[address]?)) ((congrArg (·[chip]?) (Transfer.chips_load ..)).trans kept)
    rw [same]
    refine others chip address (.inr ?_)
    rw [upto, row]
    exact other

/-- A line with a character of two bytes comes back after all lines were
cleared, from chips that are kept in a file. -/
theorem load_after_save_cleared :
    ∃ m m' : Machine, Reachable { lines := 6, row := 16 } m ∧
      m'.store = (m.saveLines 7 1 2).store.clear ∧
      m'.board.eeprom = (m.saveLines 7 1 2).board.eeprom ∧
      m.store.line 2 = "café".toList ∧ m'.store.line 2 = [] ∧
      (m'.loadLines 7 1 2).store.line 2 = "café".toList := by
  let board : Board := { clock := .stepped 0, eeprom := Eeprom.openFile .absent }
  have opened : board.eeprom.Sound := Eeprom.sound_openFile .absent
  have reached := (@Reachable.new { lines := 6, row := 16 } board default _ rfl).call
    (.write 2 "café".toList)
  generalize stands : (Machine.call _ _).2 = m at reached
  have sound : m.board.eeprom.Sound := by
    rw [← stands]
    exact sound_eeprom_call opened _
  have free : m.board.eeprom.budget = none ∧
      (m.saveLines 7 1 2).board.eeprom.budget = none := by
    rw [← stands]
    decide +kernel
  have saves : m.board.eeprom.Saves := by
    rw [← stands]
    nofun
  have text : m.store.line 2 = "café".toList := by
    rw [← stands]
    decide +kernel
  let m' : Machine := { m.saveLines 7 1 2 with store := (m.saveLines 7 1 2).store.clear }
  have blank : m'.store.line 2 = [] := by
    change (m.saveLines 7 1 2).store.clear.line 2 = []
    rw [← stands]
    decide +kernel
  obtain ⟨loaded, -, -⟩ := @load_after_save _ m m' 7 1 2 reached sound (by decide) (by decide)
    (by decide) (by decide) (fun left some => nomatch free.1.symm.trans some) saves
    (Store.evolves_clear _) rfl (fun left some => nomatch free.2.symm.trans some)
  refine ⟨m, m', reached, rfl, rfl, text, blank, ?_⟩
  rw [Store.line, loaded 2 (by decide) (by decide)]
  exact text

/-! ## Transfers that stop -/

/-- A command with nothing left to do goes on at the next line. -/
theorem step_of_next {i : Instruction} {v : Sources} (stage : m.stage = .execute i v)
    (performed : m.perform i v = (.next, m')) : m.step.step = m'.goOn (m'.line + 1) := by
  rw [step_of_execute stage, performed, Effect.next, step_advance]
  rfl

/-- **What is transferred are the lines up to the first that is blocked**, and
exactly those. There is one such line for both directions. A save leaves the
lines before it on the chip as they are, a load leaves them holding the text
that is on the chip, and neither changes anything else. No more lines are tried
than there are, but for one, and the script goes on behind the command. -/
theorem partial_transfer (h : Reachable c m) (sound : m.board.eeprom.Sound)
    (saves : m.board.eeprom.Saves) (chip first last : Nat) :
    ∃ stop,
      Transfer.StopsAt (Transfer.Blocked m.store m.board.eeprom chip first) first
        (last + 1 - first) stop ∧
      (m.saveLines chip first last =
          { m with board := { m.board with eeprom := (m.saveSweep chip first last).2 } } ∧
        (m.saveSweep chip first last).1 ≤ max 1 (c.lines + 1 - first) ∧
        Transfer.Saved m.store m.board.eeprom chip first stop
          (m.saveLines chip first last).board.eeprom) ∧
      (m.loadLines chip first last =
          { m with
            store := (m.loadSweep chip first last).2.1
            board := { m.board with eeprom := (m.loadSweep chip first last).2.2 } } ∧
        (m.loadSweep chip first last).1 ≤ max 1 (c.lines + 1 - first) ∧
        Transfer.Loaded m.store m.board.eeprom chip first stop
          (m.loadLines chip first last).store ∧
        (m.loadLines chip first last).board.eeprom.chips = m.board.eeprom.chips) ∧
      (∀ i v, m.stage = .execute i v →
        v.number 0 = chip → v.number 1 = first → v.number 2 = last →
        (i.command = .save → m.step.step = (m.saveLines chip first last).goOn (m.line + 1)) ∧
        (i.command = .load → m.step.step = (m.loadLines chip first last).goOn (m.line + 1))) := by
  have clean := h.clean
  have size : m.store.size = c.lines := h.sound.size
  have pos : 1 ≤ m.store.row := by
    have wide := h.sound.valid.row_ge
    have row := h.row
    omega
  obtain ⟨stop, stops⟩ := Transfer.exists_stopsAt
    (Transfer.Blocked m.store m.board.eeprom chip first) (last + 1 - first) first
  have free : ∀ line, first ≤ line → line < stop →
      Transfer.Free m.store m.board.eeprom chip first line := by
    intro line low before
    exact Transfer.free_iff_not_blocked.2 (stops.free line low before)
  have few : stop + 1 - first ≤ max 1 (c.lines + 1 - first) := by
    rcases Nat.lt_or_ge c.lines first with outside | inside
    · have early := stops.eq_of_blocked (.line (by omega))
      omega
    · have early := stops.le_of_blocked inside (.line (by omega))
      omega
  obtain ⟨tried, saved⟩ := Transfer.saving_sweep clean sound saves stops
  obtain ⟨tried', loaded⟩ := Transfer.loading_sweep stops
  refine ⟨stop, stops, ⟨rfl, ?_, saved.saved clean free⟩,
    ⟨rfl, ?_, loaded.loaded pos, loaded.chips⟩, ?_⟩
  · rw [saveSweep, tried]
    omega
  · rw [loadSweep, tried']
    omega
  · rintro i v stage rfl rfl rfl
    constructor
    · intro command
      exact step_of_next stage (by simp only [perform, command])
    · intro command
      exact step_of_next stage (by simp only [perform, command])

/-- With one transfer left, and as many lines asked for as can be, one line is
saved, or loaded; the next stays as it is. -/
theorem partial_transfer_budget :
    ∃ m : Machine, Reachable { lines := 6, row := 16 } m ∧
      m.board.eeprom.Sound ∧ m.board.eeprom.Saves ∧ m.board.eeprom.budget = some 1 ∧
      m.store.line 2 = "first".toList ∧ m.store.line 3 = "second".toList ∧
      m.store.slot 2 = .ok ((m.saveLines 7 2 4294967295).board.eeprom.peek 7 32 16) ∧
      (m.saveLines 7 2 4294967295).board.eeprom.byte? 7 48 = some 0 ∧
      (m.saveSweep 7 2 4294967295).1 ≤ 5 ∧
      (m.loadLines 7 2 4294967295).store.line 2 = [] ∧
      (m.loadLines 7 2 4294967295).store.line 3 = "second".toList := by
  let board : Board := { clock := .stepped 0, eeprom := { Eeprom.blank with budget := some 1 } }
  have blank : board.eeprom.Sound := ⟨Eeprom.sound_blank.count, Eeprom.sound_blank.size⟩
  have reached := ((@Reachable.new { lines := 6, row := 16 } board default _ rfl).call
    (.write 2 "first".toList)).call (.write 3 "second".toList)
  generalize stands : (Machine.call _ _).2 = m at reached
  have kept : m.board.eeprom = board.eeprom := by
    rw [← stands]
    rfl
  have first : m.store.line 2 = "first".toList := by
    rw [← stands]
    decide +kernel
  have second : m.store.line 3 = "second".toList := by
    rw [← stands]
    decide +kernel
  have row : m.store.row = 16 := reached.row
  have size : m.store.size = 6 := reached.sound.size
  have budget : m.board.eeprom.budget = some 1 := by rw [kept]
  have zeros : m.board.eeprom.chips[7]? = some Chip.blank := by rw [kept]; rfl
  obtain ⟨stop, stops, ⟨-, few, saved⟩, ⟨-, -, loaded, -⟩, -⟩ :=
    partial_transfer reached (kept ▸ blank) (kept ▸ nofun) 7 2 4294967295
  have free : Transfer.Free m.store m.board.eeprom 7 2 2 := by
    refine ⟨by decide, by omega, by rw [row]; decide, ?_⟩
    intro left ends
    cases budget.symm.trans ends
    decide
  have used : Transfer.Blocked m.store m.board.eeprom 7 2 3 := .budget budget (by omega)
  obtain rfl : stop = 3 := by
    have early := stops.le_of_blocked (by omega) used
    have later := (stops.next (Transfer.free_iff_not_blocked.1 free)).low
    omega
  have record := saved.records 2 (by omega) (by omega)
  have beside := saved.others 7 48 (.inr (.inr (by omega)))
  obtain ⟨t, slot, lossy, there, holds⟩ := loaded.lines 2 (by omega) (by omega)
  have unread := loaded.others 3 (.inr (by omega))
  rw [row] at record lossy
  refine ⟨m, reached, kept ▸ blank, kept ▸ nofun, budget, first, second, record, ?_, few, ?_, ?_⟩
  · rw [beside, Eeprom.byte?, zeros, Option.bind_some, Chip.blank, Array.getElem?_replicate,
      if_pos (by decide)]
  · have none : t = [] := by
      rw [← Utf8.lossy_iff.1 lossy, Eeprom.peek, if_pos (by decide), zeros]
      decide +kernel
    rw [Store.line_of_slot there]
    exact List.prefix_nil.1 (none ▸ holds.kept.leads)
  · obtain ⟨slot, held⟩ := m.store.exists_slot (show 3 < m.store.size by omega)
    have stays := Store.slot_eq_ok_iff.2 held
    rw [Store.line_of_slot (unread.trans stays), ← Store.line_of_slot stays]
    exact second

end Machine

end LineScript
