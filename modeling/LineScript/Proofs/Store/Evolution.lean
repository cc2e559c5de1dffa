import LineScript.Machine.Host
/-!
# How a store evolves

One store evolves into another when a sequence of operations leads there.
The operations keep the number of slots and their width (`SameShape`), and
whatever a machine does to its lines is such a sequence: a write that may be
out of range, the termination of labels during a scan, the fields of a
timestamp, a transfer from a chip. So an invariant of a store is shown once,
for `Store.apply`, and holds of every machine.
-/

namespace LineScript

namespace Store

variable {s s' s'' : Store} {index : Nat}

/-! ## Sequences of changes -/

/-- One store leads to another by a sequence of changes. -/
def Evolves (s s' : Store) : Prop := ∃ changes, s.applyAll changes = s'

namespace Evolves

theorem refl (s : Store) : s.Evolves s := ⟨[], rfl⟩

theorem trans (h : s.Evolves s') (h' : s'.Evolves s'') : s.Evolves s'' := by
  obtain ⟨changes, rfl⟩ := h
  obtain ⟨changes', rfl⟩ := h'
  exact ⟨changes ++ changes', List.foldl_append⟩

/-- A single change is a sequence. -/
theorem apply (s : Store) (c : Change) : s.Evolves (s.apply c).2 := ⟨[c], rfl⟩

/-- **Invariants of a store.** What every change keeps, an evolution keeps. -/
theorem induction {P : Store → Prop} (step : ∀ s c, P s → P (s.apply c).2)
    (h : s.Evolves s') (hs : P s) : P s' := by
  obtain ⟨changes, rfl⟩ := h
  induction changes generalizing s with
  | nil => exact hs
  | cons c rest ih => exact ih (step s c hs)

end Evolves

/-! ## Operations out of range -/

/-- Terminating the label of a line that does not exist changes nothing. -/
theorem terminateLabel_of_le (h : s.size ≤ index) : s.terminateLabel index = s := by
  have outside : s.slots[index]? = none := Array.getElem?_eq_none h
  rw [terminateLabel, outside]

/-- Looking past a label terminates it if there is such a line. -/
theorem snd_skipLeading (s : Store) (index : Nat) :
    (s.skipLeading index).2 = s.terminateLabel index := by
  unfold skipLeading
  split
  · rfl
  · next outside => rw [terminateLabel_of_le (Nat.not_lt.1 outside)]

theorem snd_apply_skipLeading (s : Store) (index : Nat) :
    (s.apply (.skipLeading index)).2 = s.terminateLabel index := by
  rw [← snd_skipLeading, apply]
  split
  · next made => rw [made]
  · next failed => rw [failed]

/-- A write that may be out of range is a change. -/
theorem evolves_writeIfPresent (s : Store) (index : Nat) (t : Text) :
    s.Evolves (s.writeIfPresent index t) := by
  rw [← snd_write]
  exact .apply s (.write index t)

/-- So is the termination of a label. -/
theorem evolves_terminateLabel (s : Store) (index : Nat) :
    s.Evolves (s.terminateLabel index) := by
  rw [← snd_apply_skipLeading]
  exact .apply s (.skipLeading index)

/-- And the clearing of all lines. -/
theorem evolves_clear (s : Store) : s.Evolves s.clear := .apply s .clear

/-! ## Shape -/

/-- Two stores have as many slots, of the same width. -/
structure SameShape (s s' : Store) : Prop where
  size : s'.size = s.size
  row : s'.row = s.row

theorem SameShape.refl (s : Store) : SameShape s s := ⟨rfl, rfl⟩

theorem SameShape.trans (h : SameShape s s') (h' : SameShape s' s'') : SameShape s s'' :=
  ⟨h'.size.trans h.size, h'.row.trans h.row⟩

theorem put_shape (s : Store) (index : Nat) (slot : Slot) : SameShape s (s.put index slot).2 := by
  unfold put
  split
  · exact ⟨Array.size_setIfInBounds, rfl⟩
  · exact .refl s

theorem copyDown_shape (s : Store) (index last : Nat) : SameShape s (s.copyDown index last) :=
  ⟨Array.size_mapIdx, rfl⟩

theorem copyUp_shape (s : Store) (index last : Nat) : SameShape s (s.copyUp index last) :=
  ⟨Array.size_mapIdx, rfl⟩

theorem terminateLabel_shape (s : Store) (index : Nat) : SameShape s (s.terminateLabel index) := by
  unfold terminateLabel
  split
  · dsimp only
    split
    · exact .refl s
    · exact ⟨Array.size_setIfInBounds, rfl⟩
  · exact .refl s

/-! ## Moving lines -/

variable {last : Nat}

/-- Where there are such lines, an insertion copies them and clears one. -/
theorem insert_of_le (le : index ≤ last) (inside : last < s.size) :
    s.insert index last = (none, (s.copyDown index last).writeIfPresent index []) := by
  have there : index < (s.copyDown index last).size := by
    rw [(copyDown_shape s index last).size]
    omega
  rw [insert, if_pos ⟨le, inside⟩]
  exact write_of_lt _ [] there

/-- So does a removal. -/
theorem remove_of_le (le : index ≤ last) (inside : last < s.size) :
    s.remove index last = (none, (s.copyUp index last).writeIfPresent last []) := by
  have there : last < (s.copyUp index last).size := by
    rw [(copyUp_shape s index last).size]
    exact inside
  rw [remove, if_pos ⟨le, inside⟩]
  exact write_of_lt _ [] there

/-- Where there are not, neither does anything. -/
theorem insert_of_bad (bad : ¬ (index ≤ last ∧ last < s.size)) :
    s.insert index last = (some (.noSuchLine index), s) := if_neg bad

theorem remove_of_bad (bad : ¬ (index ≤ last ∧ last < s.size)) :
    s.remove index last = (some (.noSuchLine index), s) := if_neg bad

/-! ## Every change -/

/-- **A change keeps the shape.** -/
theorem apply_shape (s : Store) (c : Change) : SameShape s (s.apply c).2 := by
  cases c with
  | write index t => exact put_shape s index _
  | writeBytes index bytes => exact put_shape s index _
  | clearLine index => exact put_shape s index _
  | clear => exact ⟨Array.size_map, rfl⟩
  | skipLeading index =>
    rw [snd_apply_skipLeading]
    exact terminateLabel_shape s index
  | insert index last =>
    unfold apply insert
    dsimp only
    split
    · exact (copyDown_shape s index last).trans (put_shape _ index _)
    · exact .refl s
  | remove index last =>
    unfold apply remove
    dsimp only
    split
    · exact (copyUp_shape s index last).trans (put_shape _ last _)
    · exact .refl s

theorem Evolves.shape (h : s.Evolves s') : SameShape s s' :=
  h.induction (P := SameShape s) (fun t c ht => ht.trans (apply_shape t c)) (.refl s)

/-- The input line stays where it is. -/
theorem Evolves.inputSlot (h : s.Evolves s') : s'.inputSlot = s.inputSlot := by
  rw [Store.inputSlot, Store.inputSlot, h.shape.size]

/-! ## What a machine does to its lines -/

/-- A scan for labels. -/
theorem evolves_scan (nameLen count room index : Nat) (s : Store) :
    s.Evolves (LabelTable.scan nameLen count room index s).2 := by
  induction count generalizing room index s with
  | zero => exact .refl s
  | succ count ih =>
    cases room with
    | zero => exact .refl s
    | succ room =>
      have first := evolves_terminateLabel s index
      unfold LabelTable.scan
      dsimp only
      split
      · exact first.trans (ih room (index + 1) _)
      · exact first.trans (ih (room + 1) (index + 1) _)

/-- One line of a transfer from a chip. -/
theorem evolves_loadLine (chip line : Nat) (s : Store) (e : Eeprom) :
    s.Evolves (Transfer.loadLine chip line (s, e)).2.1 := by
  unfold Transfer.loadLine
  dsimp only
  split
  · exact .refl s
  · next bytes _ _ =>
    have written := Evolves.apply s (.writeBytes line bytes)
    unfold apply at written
    dsimp only at written
    split
    all_goals
      next put =>
        rw [put] at written
        exact written

/-- A transfer from a chip. -/
theorem evolves_load (chip count line : Nat) (s : Store) (e : Eeprom) :
    s.Evolves (Transfer.load chip count line s e).2.1 :=
  Transfer.sweep_keeps (P := fun x : Store × Eeprom => s.Evolves x.1)
    (fun k x _ _ before => before.trans (evolves_loadLine chip k x.1 x.2)) (.refl s)

/-- The fields of a timestamp. -/
theorem evolves_writeFields (m : Machine) (operands : List Operand) (fields : List Int) :
    m.store.Evolves (m.writeFields operands fields).store := by
  unfold Machine.writeFields
  generalize m.store = s
  dsimp only
  induction operands.zip fields generalizing s with
  | nil => exact .refl s
  | cons field rest ih =>
    rw [List.foldl_cons]
    refine Evolves.trans ?_ (ih _)
    split
    · exact evolves_writeIfPresent s _ _
    · exact .refl s

end Store

end LineScript
