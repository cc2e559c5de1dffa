import LineScript.Proofs.Store.Writing
/-!
# Moving lines

Where every line stands after a blank one was inserted into a range or one was
removed from it (`Store.MovedDown`, `Store.MovedUp`). Each undoes the other but
for the line that was lost, whose place is blank. In the bytes of all slots
back to back a move is the copy of one block over another, which it overlaps,
and the filling of one slot with zeros (`Store.BlockMoved.bytes`).
-/

namespace LineScript

/-! ## Spans of a list -/

section Spans

variable {α : Type} {l : List α} {a : α} {rows : List (List α)} {row start stop dest : Nat}

/-- A list with what stands from `start` up to `stop` copied to another place,
as it was before. -/
def copySpan (l : List α) (start stop dest : Nat) : List α :=
  l.take dest ++ ((l.take stop).drop start ++ l.drop (dest + (stop - start)))

/-- A list with the same thing everywhere from `start` up to `stop`. -/
def fillSpan (a : α) (l : List α) (start stop : Nat) : List α :=
  l.take start ++ (List.replicate (stop - start) a ++ l.drop stop)

/-- Something in place of a part of a list. -/
theorem getElem?_replaced (part : List α) (room : dest + part.length ≤ l.length) (n : Nat) :
    (l.take dest ++ (part ++ l.drop (dest + part.length)))[n]? =
      if dest ≤ n ∧ n < dest + part.length then part[n - dest]? else l[n]? := by
  have front : (l.take dest).length = dest := List.length_take_of_le (by omega)
  rcases Nat.lt_or_ge n dest with before | after
  · rw [if_neg (by omega), List.getElem?_append_left (by omega), List.getElem?_take_of_lt before]
  · rw [List.getElem?_append_right (by omega), front]
    rcases Nat.lt_or_ge n (dest + part.length) with within | behind
    · rw [if_pos ⟨after, within⟩, List.getElem?_append_left (by omega)]
    · have place : dest + part.length + (n - dest - part.length) = n := by omega
      rw [if_neg (by omega), List.getElem?_append_right (by omega), List.getElem?_drop, place]

theorem length_copySpan (inside : stop ≤ l.length) (room : dest + (stop - start) ≤ l.length) :
    (copySpan l start stop dest).length = l.length := by
  simp only [copySpan, List.length_append, List.length_take, List.length_drop]
  omega

theorem getElem?_copySpan (inside : stop ≤ l.length) (room : dest + (stop - start) ≤ l.length)
    (n : Nat) : (copySpan l start stop dest)[n]? =
      if dest ≤ n ∧ n < dest + (stop - start) then l[start + (n - dest)]? else l[n]? := by
  have size : ((l.take stop).drop start).length = stop - start := by
    rw [List.length_drop, List.length_take_of_le inside]
  have replaced := getElem?_replaced ((l.take stop).drop start) (size.symm ▸ room) n
  rw [size] at replaced
  rw [copySpan, replaced]
  split
  · rw [List.getElem?_drop, List.getElem?_take_of_lt (by omega)]
  · rfl

theorem getElem?_fillSpan (le : start ≤ stop) (inside : stop ≤ l.length) (a : α) (n : Nat) :
    (fillSpan a l start stop)[n]? = if start ≤ n ∧ n < stop then some a else l[n]? := by
  have size : start + (List.replicate (stop - start) a).length = stop := by
    rw [List.length_replicate]
    omega
  have replaced := getElem?_replaced (List.replicate (stop - start) a) (size.symm ▸ inside) n
  rw [size] at replaced
  rw [fillSpan, replaced]
  split
  · rw [List.getElem?_replicate_of_lt (by omega)]
  · rfl

theorem mem_of_mem_copySpan (mem : a ∈ copySpan l start stop dest) : a ∈ l := by
  rcases List.mem_append.1 mem with front | rest
  · exact List.mem_of_mem_take front
  · rcases List.mem_append.1 rest with part | behind
    · exact List.mem_of_mem_take (List.mem_of_mem_drop part)
    · exact List.mem_of_mem_drop behind

/-! ### Spans of rows -/

/-- The first rows of a width take so much, -/
theorem take_flatten (wide : ∀ r ∈ rows, r.length = row) (n : Nat) :
    rows.flatten.take (n * row) = (rows.take n).flatten := by
  induction rows generalizing n with
  | nil => simp
  | cons r rows ih =>
    obtain ⟨first, rest⟩ := List.forall_mem_cons.1 wide
    cases n with
    | zero => simp
    | succ n =>
      rw [List.flatten_cons, List.take_succ_cons, List.flatten_cons, ← ih rest, Nat.succ_mul,
        Nat.add_comm, ← first, List.take_length_add_append]

/-- and so do the others. -/
theorem drop_flatten (wide : ∀ r ∈ rows, r.length = row) (n : Nat) :
    rows.flatten.drop (n * row) = (rows.drop n).flatten := by
  induction rows generalizing n with
  | nil => simp
  | cons r rows ih =>
    obtain ⟨first, rest⟩ := List.forall_mem_cons.1 wide
    cases n with
    | zero => simp
    | succ n =>
      rw [List.flatten_cons, List.drop_succ_cons, ← ih rest, Nat.succ_mul, Nat.add_comm, ← first,
        List.drop_length_add_append]

/-- **To copy rows is to copy what they are made of.** -/
theorem flatten_copySpan (wide : ∀ r ∈ rows, r.length = row) (start stop dest : Nat) :
    (copySpan rows start stop dest).flatten =
      copySpan rows.flatten (start * row) (stop * row) (dest * row) := by
  have widePart : ∀ r ∈ rows.take stop, r.length = row :=
    fun r mem => wide r (List.mem_of_mem_take mem)
  have size : dest * row + (stop * row - start * row) = (dest + (stop - start)) * row := by
    rw [← Nat.sub_mul, ← Nat.add_mul]
  rw [copySpan, copySpan, List.flatten_append, List.flatten_append, size, take_flatten wide,
    take_flatten wide, drop_flatten wide, drop_flatten widePart]

/-- So it is to fill them. -/
theorem flatten_fillSpan (wide : ∀ r ∈ rows, r.length = row) (a : α) (start stop : Nat) :
    (fillSpan (List.replicate row a) rows start stop).flatten =
      fillSpan a rows.flatten (start * row) (stop * row) := by
  rw [fillSpan, fillSpan, List.flatten_append, List.flatten_append, ← Nat.sub_mul,
    take_flatten wide, drop_flatten wide, List.flatten_replicate_replicate]

end Spans

namespace Store

variable {s s' s'' : Store} {index last : Nat}

/-! ## Where the lines stand -/

/-- The lines from `index` on stand one further down, as far as `last`, and
`index` is blank. -/
structure MovedDown (s s' : Store) (index last : Nat) : Prop where
  shape : SameShape s s'
  blank : s'.slot index = .ok (Slot.blank s.row)
  moved : ∀ line, index ≤ line → line < last → s'.slot (line + 1) = s.slot line
  others : ∀ line, line < index ∨ last < line → s'.slot line = s.slot line

/-- The lines behind `index` stand one further up, as far as `last`, and `last`
is blank. -/
structure MovedUp (s s' : Store) (index last : Nat) : Prop where
  shape : SameShape s s'
  blank : s'.slot last = .ok (Slot.blank s.row)
  moved : ∀ line, index < line → line ≤ last → s'.slot (line - 1) = s.slot line
  others : ∀ line, line < index ∨ last < line → s'.slot line = s.slot line

/-- All lines but one are the same, and that one is blank. -/
structure BlankAt (s s' : Store) (blankLine : Nat) : Prop where
  shape : SameShape s s'
  blank : s'.slot blankLine = .ok (Slot.blank s.row)
  others : ∀ line, line ≠ blankLine → s'.slot line = s.slot line

/-- What was moved down and then up is where it was, and only the last line is lost. -/
theorem MovedDown.undo (down : MovedDown s s' index last) (up : MovedUp s' s'' index last) :
    BlankAt s s'' last where
  shape := down.shape.trans up.shape
  blank := by rw [up.blank, down.shape.row]
  others line other := by
    by_cases range : index ≤ line ∧ line < last
    · have back := up.moved (line + 1) (by omega) (by omega)
      rw [Nat.add_sub_cancel] at back
      rw [back, down.moved line range.1 range.2]
    · have outside : line < index ∨ last < line := by omega
      rw [up.others line outside, down.others line outside]

/-- What was moved up and then down is where it was, and only the first line is lost. -/
theorem MovedUp.undo (up : MovedUp s s' index last) (down : MovedDown s' s'' index last) :
    BlankAt s s'' index where
  shape := up.shape.trans down.shape
  blank := by rw [down.blank, up.shape.row]
  others line other := by
    by_cases range : index < line ∧ line ≤ last
    · have back := down.moved (line - 1) (by omega) (by omega)
      rw [Nat.sub_add_cancel (by omega)] at back
      rw [back, up.moved line range.1 range.2]
    · have outside : line < index ∨ last < line := by omega
      rw [down.others line outside, up.others line outside]

/-! ## Insertion and removal -/

/-- A line of a store whose slots were replaced one by one. -/
theorem slot_mapIdx (s : Store) (f : Nat → Slot → Slot) (line : Nat) :
    Store.slot { s with slots := s.slots.mapIdx f } line = (s.slot line).map (f line) := by
  simp only [slot, Array.getElem?_mapIdx]
  cases s.slots[line]? <;> rfl

/-- **Where the lines stand after an insertion.** -/
theorem exists_insert (le : index ≤ last) (inside : last < s.size) :
    ∃ s', s.insert index last = (none, s') ∧ MovedDown s s' index last := by
  have shape := copyDown_shape s index last
  have there : index < (s.copyDown index last).size := by
    rw [shape.size]
    omega
  refine ⟨_, insert_of_le le inside, shape.trans ⟨Array.size_setIfInBounds, rfl⟩, ?_, ?_, ?_⟩
  · exact slot_writeIfPresent_self there []
  · intro line from_ below
    obtain ⟨source, above⟩ := exists_slot (show line < s.size by omega)
    obtain ⟨slot, old⟩ := exists_slot (show line + 1 < s.size by omega)
    have range : index < line + 1 ∧ line + 1 ≤ last := by omega
    rw [slot_writeIfPresent_of_ne [] (show line + 1 ≠ index by omega), copyDown, slot_mapIdx,
      slot_eq_ok_iff.2 old, slot_eq_ok_iff.2 above]
    simp only [Except.map, if_pos range, Nat.add_sub_cancel, above, Option.getD_some]
  · intro line outside
    have apart : ¬ (index < line ∧ line ≤ last) := by omega
    rw [slot_writeIfPresent_of_ne [] (show line ≠ index by omega), copyDown, slot_mapIdx]
    simp only [if_neg apart]
    cases s.slot line <;> rfl

/-- **Where the lines stand after a removal.** -/
theorem exists_remove (le : index ≤ last) (inside : last < s.size) :
    ∃ s', s.remove index last = (none, s') ∧ MovedUp s s' index last := by
  have shape := copyUp_shape s index last
  have there : last < (s.copyUp index last).size := by
    rw [shape.size]
    exact inside
  refine ⟨_, remove_of_le le inside, shape.trans ⟨Array.size_setIfInBounds, rfl⟩, ?_, ?_, ?_⟩
  · exact slot_writeIfPresent_self there []
  · intro line after upto
    obtain ⟨source, below⟩ := exists_slot (show line < s.size by omega)
    obtain ⟨slot, old⟩ := exists_slot (show line - 1 < s.size by omega)
    have range : index ≤ line - 1 ∧ line - 1 < last := by omega
    have back : line - 1 + 1 = line := by omega
    rw [slot_writeIfPresent_of_ne [] (show line - 1 ≠ last by omega), copyUp, slot_mapIdx,
      slot_eq_ok_iff.2 old, slot_eq_ok_iff.2 below]
    simp only [Except.map, if_pos range, back, below, Option.getD_some]
  · intro line outside
    have apart : ¬ (index ≤ line ∧ line < last) := by omega
    rw [slot_writeIfPresent_of_ne [] (show line ≠ last by omega), copyUp, slot_mapIdx]
    simp only [if_neg apart]
    cases s.slot line <;> rfl

/-! ## Moves of bytes -/

/-- The bytes of all slots, back to back. -/
def bytes (s : Store) : List UInt8 := s.slots.toList.flatten

/-- Every slot is as wide as the store says. -/
def Uniform (s : Store) : Prop := ∀ slot ∈ s.slots.toList, slot.length = s.row

theorem Clean.uniform (h : s.Clean) : s.Uniform :=
  fun slot mem => (h.slots slot (Array.mem_def.2 mem)).length

/-- A line that is the same as another holds the same slot. -/
theorem getElem?_of_slot {line line' : Nat} (same : s'.slot line' = s.slot line)
    (inside : line < s.size) : s'.slots.toList[line']? = s.slots.toList[line]? := by
  obtain ⟨slot, there⟩ := exists_slot inside
  rw [slot_eq_ok_iff.2 there] at same
  rw [Array.getElem?_toList, Array.getElem?_toList, there, slot_eq_ok_iff.1 same]

/-- The lines of a block stand at another place, one line is blank, and all
others are where they were. -/
structure BlockMoved (s s' : Store) (start stop dest gap : Nat) : Prop where
  shape : SameShape s s'
  blank : s'.slot gap = .ok (Slot.blank s.row)
  block : ∀ line, line ≠ gap → dest ≤ line → line < dest + (stop - start) →
    s'.slot line = s.slot (start + (line - dest))
  others : ∀ line, line ≠ gap → line < dest ∨ dest + (stop - start) ≤ line →
    s'.slot line = s.slot line

theorem MovedDown.blockMoved (down : MovedDown s s' index last) (le : index ≤ last) :
    BlockMoved s s' index last (index + 1) index where
  shape := down.shape
  blank := down.blank
  block line _ after before := by
    obtain ⟨above, rfl⟩ : ∃ above, line = above + 1 := ⟨line - 1, by omega⟩
    have place : index + (above + 1 - (index + 1)) = above := by omega
    rw [place]
    exact down.moved above (by omega) (by omega)
  others line other outside := down.others line (by omega)

theorem MovedUp.blockMoved (up : MovedUp s s' index last) (le : index ≤ last) :
    BlockMoved s s' (index + 1) (last + 1) index last where
  shape := up.shape
  blank := up.blank
  block line other after before := by
    have place : index + 1 + (line - index) = line + 1 := by omega
    rw [place]
    exact up.moved (line + 1) (by omega) (by omega)
  others line other outside := up.others line (by omega)

/-- The slots after a move, -/
theorem BlockMoved.toList {start stop dest gap : Nat} (h : BlockMoved s s' start stop dest gap)
    (inside : stop ≤ s.size) (room : dest + (stop - start) ≤ s.size) (within : gap < s.size) :
    s'.slots.toList = fillSpan (Slot.blank s.row) (copySpan s.slots.toList start stop dest)
      gap (gap + 1) := by
  have size : s.slots.toList.length = s.size := Array.length_toList
  have size' : s'.slots.toList.length = s.size := h.shape.size
  have kept : (copySpan s.slots.toList start stop dest).length = s.slots.toList.length :=
    length_copySpan (by omega) (by omega)
  refine List.ext_getElem? fun line => ?_
  rw [getElem?_fillSpan (by omega) (by omega), getElem?_copySpan (by omega) (by omega)]
  split
  · next here =>
    obtain rfl : line = gap := by omega
    rw [Array.getElem?_toList]
    exact slot_eq_ok_iff.1 h.blank
  · split
    · exact getElem?_of_slot (h.block line (by omega) (by omega) (by omega)) (by omega)
    · rcases Nat.lt_or_ge line s.size with there | past
      · exact getElem?_of_slot (h.others line (by omega) (by omega)) there
      · rw [List.getElem?_eq_none (by omega), List.getElem?_eq_none (by omega)]

/-- **and their bytes**: those of the block are copied, and those of the blank
line filled with zeros. -/
theorem BlockMoved.bytes {start stop dest gap : Nat} (h : BlockMoved s s' start stop dest gap)
    (uniform : s.Uniform) (inside : stop ≤ s.size) (room : dest + (stop - start) ≤ s.size)
    (within : gap < s.size) :
    s'.bytes = fillSpan 0 (copySpan s.bytes (start * s.row) (stop * s.row) (dest * s.row))
      (gap * s.row) ((gap + 1) * s.row) := by
  have wide : ∀ slot ∈ copySpan s.slots.toList start stop dest, slot.length = s.row :=
    fun slot mem => uniform slot (mem_of_mem_copySpan mem)
  rw [Store.bytes, h.toList inside room within, Slot.blank, flatten_fillSpan wide,
    flatten_copySpan uniform]
  rfl

/-! ## Every range -/

/-- A range of lines that exist can be moved down to insert a blank line, and
up to remove one. Whichever is done first, the other brings back all lines of
the range but the one that was lost. As bytes, each move is a copy within the
bytes of all slots and one slot of zeros, and it reaches no other. A range
that goes backwards or beyond the last line is refused, and nothing changes. -/
theorem insert_remove_restores (s : Store) (index last : Nat) :
    (index ≤ last → last < s.size → ∃ s₁ s₂ t₁ t₂,
      s.insert index last = (none, s₁) ∧ MovedDown s s₁ index last ∧
      s.remove index last = (none, s₂) ∧ MovedUp s s₂ index last ∧
      s₁.remove index last = (none, t₁) ∧ BlankAt s t₁ last ∧
      s₂.insert index last = (none, t₂) ∧ BlankAt s t₂ index ∧
      (s.Uniform →
        s₁.bytes = fillSpan 0
          (copySpan s.bytes (index * s.row) (last * s.row) ((index + 1) * s.row))
          (index * s.row) ((index + 1) * s.row) ∧
        s₂.bytes = fillSpan 0
          (copySpan s.bytes ((index + 1) * s.row) ((last + 1) * s.row) (index * s.row))
          (last * s.row) ((last + 1) * s.row))) ∧
    (last < index ∨ s.size ≤ last →
      s.apply (.insert index last) = (some (.noSuchLine index), s) ∧
      s.apply (.remove index last) = (some (.noSuchLine index), s)) := by
  constructor
  · intro le inside
    obtain ⟨s₁, inserted, down⟩ := exists_insert le inside
    obtain ⟨s₂, removed, up⟩ := exists_remove le inside
    obtain ⟨t₁, back, up'⟩ := exists_remove le (down.shape.size ▸ inside)
    obtain ⟨t₂, again, down'⟩ := exists_insert le (up.shape.size ▸ inside)
    exact ⟨s₁, s₂, t₁, t₂, inserted, down, removed, up, back, down.undo up', again, up.undo down',
      fun uniform =>
        ⟨(down.blockMoved le).bytes uniform (by omega) (by omega) (by omega),
          (up.blockMoved le).bytes uniform (by omega) (by omega) inside⟩⟩
  · intro bad
    have refused : ¬ (index ≤ last ∧ last < s.size) := by omega
    exact ⟨insert_of_bad refused, remove_of_bad refused⟩

/-- A range of three lines, the last one blank, and one that goes backwards. -/
theorem insert_remove_restores_three :
    let s := (new 6 8).applyAll
      [.write 1 "a".toList, .write 2 "b".toList, .write 3 "c".toList, .write 5 "d".toList]
    ∃ s₁ t₁, s.insert 2 4 = (none, s₁) ∧ s₁.slot 4 = s.slot 3 ∧ s₁.slot 5 = s.slot 5 ∧
      s₁.bytes = fillSpan 0 (copySpan s.bytes 16 32 24) 16 24 ∧
      s₁.remove 2 4 = (none, t₁) ∧ t₁.slot 3 = s.slot 3 ∧ t₁.slot 4 = .ok (Slot.blank 8) ∧
      (s.apply (.remove 3 2)).1 = some (.noSuchLine 3) := by
  intro s
  have clean : s.Clean := (clean_new 6 (by decide)).evolves ⟨_, rfl⟩
  obtain ⟨moves, -⟩ := insert_remove_restores s 2 4
  obtain ⟨-, refuses⟩ := insert_remove_restores s 3 2
  obtain ⟨s₁, s₂, t₁, t₂, inserted, down, -, -, back, restored, -, -, blocks⟩ :=
    moves (by decide) (by decide)
  exact ⟨s₁, t₁, inserted, down.moved 3 (by decide) (by decide), down.others 5 (by decide),
    (blocks clean.uniform).1, back, restored.others 3 (by decide), restored.blank,
    congrArg Prod.fst (refuses (by decide)).2⟩

end Store

end LineScript
