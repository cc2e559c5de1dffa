import LineScript.Proofs.Machine.Calls
import LineScript.Proofs.Store.Clean
import Mathlib.Data.List.DropRight
import Mathlib.Data.List.InsertIdx
/-!
# Editing as on a sheet

To one who enters lines while nothing runs, the script is a sheet of lines
with a cursor on one of them. Which entries are editor commands is settled by
the whole trimmed text (`Edit.ofText_trim`), what a command does to the slots
is what it does to a list (`Store.insert_eq`, `Store.remove_eq`), and so the
store and the cursor follow the sheet, entry by entry (`Shows.receive`), and
never leave it (`editing_follows_sheet`).
-/

namespace LineScript

/-! ## Entries -/

namespace Text

variable {t : Text} {c : Char}

/-- A text of blanks, and no other, is trimmed to nothing. -/
theorem trim_eq_nil_iff : t.trim = [] ↔ ∀ c ∈ t, isBlank c = true := by
  rw [trim, List.reverse_eq_nil_iff, List.dropWhile_eq_nil_iff]
  constructor
  · intro blank
    have none : t.dropWhile isBlank = [] := by
      by_contra some
      have first := List.head_dropWhile_not isBlank some
      rw [blank _ (List.mem_reverse.2 (List.head_mem some))] at first
      cases first
    exact List.dropWhile_eq_nil_iff.1 none
  · intro blank c mem
    exact blank c ((List.dropWhile_sublist _).subset (List.mem_reverse.1 mem))

/-- What is trimmed does not end in a blank. -/
theorem isBlank_of_getLast?_trim (last : t.trim.getLast? = some c) : isBlank c = false := by
  have stop := List.head?_dropWhile_not isBlank (t.dropWhile isBlank).reverse
  rw [trim, List.getLast?_reverse] at last
  rwa [last] at stop

/-- And does not begin with one. -/
theorem isBlank_of_head?_trim (first : t.trim.head? = some c) : isBlank c = false := by
  obtain ⟨cut, whole⟩ : t.trim <+: t.dropWhile isBlank := List.rdropWhile_prefix isBlank _
  have stop := List.head?_dropWhile_not isBlank t
  rwa [← whole, List.head?_append, first, Option.some_or] at stop

/-- A blank in front is trimmed off. -/
theorem trim_cons (blank : isBlank c = true) : trim (c :: t) = trim t := by
  rw [trim, trim, List.dropWhile_cons_of_pos blank]

/-- A trimmed text is a word alone, or a word and something that is more than
blanks behind a space. -/
theorem keyword_trim (t : Text) :
    (t.trim.keyword = (t.trim, []) ∧ ' ' ∉ t.trim) ∨
      ∃ word rest, t.trim = word ++ ' ' :: rest ∧ ' ' ∉ word ∧
        t.trim.keyword = (word, ' ' :: rest) ∧ trim rest ≠ [] := by
  have begins : t.trim.dropSpaces = t.trim := by
    cases entry : t.trim with
    | nil => rfl
    | cons c rest =>
      have first : isBlank c = false := isBlank_of_head?_trim (t := t) (by rw [entry]; rfl)
      refine List.dropWhile_cons_of_neg fun space => ?_
      rw [of_decide_eq_true space] at first
      exact absurd first (by decide)
  have parts : t.trim.takeWhile (· ≠ ' ') ++ t.trim.dropWhile (· ≠ ' ') = t.trim :=
    List.takeWhile_append_dropWhile
  have single : ' ' ∉ t.trim.takeWhile (· ≠ ' ') := by
    intro mem
    have passed := List.all_eq_true.1 List.all_takeWhile _ mem
    exact absurd passed (by decide)
  rw [keyword, begins]
  cases behind : t.trim.dropWhile (· ≠ ' ') with
  | nil =>
    rw [behind, List.append_nil] at parts
    rw [parts] at single ⊢
    exact .inl ⟨rfl, single⟩
  | cons c rest =>
    have stop := List.head?_dropWhile_not (fun c => decide (c ≠ ' ')) t.trim
    rw [behind] at stop parts
    obtain rfl : c = ' ' := by simpa using stop
    refine .inr ⟨_, rest, parts.symm, single, rfl, fun blank => ?_⟩
    -- the last character would be a blank
    obtain ⟨last, ends⟩ : ∃ last, (' ' :: rest).getLast? = some last :=
      ⟨_, List.getLast?_eq_some_getLast (List.cons_ne_nil _ _)⟩
    have plain : isBlank last = false := by
      refine isBlank_of_getLast?_trim (t := t) ?_
      rw [← parts, List.getLast?_append, ends, Option.some_or]
    rcases List.mem_cons.1 (List.mem_of_getLast? ends) with rfl | mem
    · exact absurd plain (by decide)
    · rw [trim_eq_nil_iff.1 blank last mem] at plain
      cases plain

end Text

open Text

/-- **Only a whole text is an editor command**, once it is trimmed, but for
`set`, which is followed by a space and a number. -/
theorem Edit.ofText_trim (t : Text) : Edit.ofText t.trim =
    if t.trim = "run".toList then run
    else if t.trim = "clear".toList then clear
    else if t.trim = "insert".toList then insert
    else if t.trim = "delete".toList then delete
    else if t.trim = "list".toList then list
    else if "set ".toList <+: t.trim then set (trim (t.trim.drop 4))
    else write t.trim := by
  rcases keyword_trim t with ⟨alone, single⟩ | ⟨word, rest, entry, single, parts, more⟩
  · have unset : ¬ "set ".toList <+: t.trim := fun front => single (front.subset (by decide))
    have nothing : trim [] = [] := rfl
    rw [ofText, alone]
    dsimp only
    rw [nothing, if_pos List.isEmpty_nil, if_neg unset]
  · have other (name : Text) (plain : ' ' ∉ name) : t.trim ≠ name := by
      rintro rfl
      exact plain (entry ▸ List.mem_append_right _ List.mem_cons_self)
    have kept : ¬ (trim (' ' :: rest)).isEmpty = true := by
      rw [trim_cons (by decide), List.isEmpty_iff]
      exact more
    have named : "set ".toList <+: t.trim ↔ word = "set".toList := by
      constructor
      · rintro ⟨behind, whole⟩
        have first : (keyword ("set ".toList ++ behind)).1 = "set".toList := rfl
        rw [whole, parts] at first
        exact first
      · intro set
        refine ⟨rest, ?_⟩
        rw [entry, set]
        rfl
    rw [ofText, parts]
    dsimp only
    rw [if_neg kept, if_neg (other _ (by decide)), if_neg (other _ (by decide)),
      if_neg (other _ (by decide)), if_neg (other _ (by decide)), if_neg (other _ (by decide))]
    simp only [named]
    split
    · next set =>
      rw [entry, set, trim_cons (by decide)]
      rfl
    · rfl

/-! ## Moving lines -/

section Moving

variable {α : Type} {l : List α} {i k : Nat}

/-- To shift a range down is to insert in front of it and to erase its end. -/
theorem set_mapIdx_shift_down (a : α) (le : i ≤ k) (inside : k < l.length) :
    (l.mapIdx (fun j x => if i < j ∧ j ≤ k then l[j - 1]?.getD x else x)).set i a =
      (l.insertIdx i a).eraseIdx (k + 1) := by
  refine List.ext_getElem? fun j => ?_
  rw [List.getElem?_set, List.length_mapIdx, List.getElem?_mapIdx, List.getElem?_eraseIdx,
    List.getElem?_insertIdx, List.getElem?_insertIdx]
  rcases Nat.lt_or_ge k j with behind | upto
  · rw [if_neg (by omega), if_neg (by omega), if_neg (by omega), if_neg (by omega),
      Nat.add_sub_cancel]
    simp only [show ¬ (i < j ∧ j ≤ k) by omega, if_false, Option.map_id']
  · have there : l[j]? = some l[j] := List.getElem?_eq_getElem (by omega)
    rw [there, Option.map_some]
    rcases Nat.lt_trichotomy j i with before | rfl | after
    · rw [if_neg (by omega), if_neg (by omega), if_pos (by omega), if_pos before]
    · rw [if_pos rfl, if_pos (by omega), if_pos (by omega), if_neg (by omega), if_pos rfl,
        if_pos (by omega)]
    · have above : l[j - 1]? = some l[j - 1] := List.getElem?_eq_getElem (by omega)
      rw [if_neg (by omega), if_pos ⟨after, upto⟩, if_pos (by omega), if_neg (by omega),
        if_neg (by omega), above, Option.getD_some]

/-- To shift a range up is to erase its front and to insert behind it. -/
theorem set_mapIdx_shift_up (a : α) (le : i ≤ k) (inside : k < l.length) :
    (l.mapIdx (fun j x => if i ≤ j ∧ j < k then l[j + 1]?.getD x else x)).set k a =
      (l.eraseIdx i).insertIdx k a := by
  have size : (l.eraseIdx i).length = l.length - 1 := List.length_eraseIdx_of_lt (by omega)
  refine List.ext_getElem? fun j => ?_
  rw [List.getElem?_set, List.length_mapIdx, List.getElem?_mapIdx, List.getElem?_insertIdx,
    List.getElem?_eraseIdx, List.getElem?_eraseIdx]
  rcases Nat.lt_trichotomy j k with before | rfl | after
  · have there : l[j]? = some l[j] := List.getElem?_eq_getElem (by omega)
    have below : l[j + 1]? = some l[j + 1] := List.getElem?_eq_getElem (by omega)
    rw [if_neg (by omega), if_pos before, there, Option.map_some]
    rcases Nat.lt_or_ge j i with front | range
    · rw [if_neg (by omega), if_pos front]
    · rw [if_pos ⟨range, before⟩, if_neg (by omega), below, Option.getD_some]
  · rw [if_pos rfl, if_pos inside, if_neg (by omega), if_pos rfl, if_pos (by omega)]
  · have back : j - 1 + 1 = j := by omega
    rw [if_neg (by omega), if_neg (by omega), if_neg (by omega), if_neg (by omega), back]
    simp only [show ¬ (i ≤ j ∧ j < k) by omega, if_false, Option.map_id']

/-- What stands behind a list does not matter to an insertion into it. -/
theorem insertIdx_append {l' : List α} (a : α) (le : i ≤ l.length) :
    (l ++ l').insertIdx i a = l.insertIdx i a ++ l' := by
  induction l generalizing i with
  | nil =>
    obtain rfl : i = 0 := Nat.le_zero.1 le
    rfl
  | cons b l ih =>
    cases i with
    | zero => rfl
    | succ i =>
      rw [List.cons_append, List.insertIdx_succ_cons, List.insertIdx_succ_cons,
        ih (Nat.le_of_succ_le_succ le), List.cons_append]

end Moving

namespace Store

variable {s : Store} {index last : Nat}

/-- **A line is inserted, and the last of the range falls out.** -/
theorem insert_eq (le : index ≤ last) (inside : last < s.size) :
    ∃ s', s.insert index last = (none, s') ∧ s'.row = s.row ∧ s'.slots.toList =
      (s.slots.toList.insertIdx index (Slot.blank s.row)).eraseIdx (last + 1) := by
  refine ⟨_, insert_of_le le inside, rfl, ?_⟩
  rw [writeIfPresent, Array.toList_setIfInBounds, copyDown, Array.toList_mapIdx,
    ← set_mapIdx_shift_down _ le inside]
  simp only [Array.getElem?_toList, Slot.blank_eq_ofText]

/-- **A line is removed, and the last of the range becomes blank.** -/
theorem remove_eq (le : index ≤ last) (inside : last < s.size) :
    ∃ s', s.remove index last = (none, s') ∧ s'.row = s.row ∧ s'.slots.toList =
      (s.slots.toList.eraseIdx index).insertIdx last (Slot.blank s.row) := by
  refine ⟨_, remove_of_le le inside, rfl, ?_⟩
  rw [writeIfPresent, Array.toList_setIfInBounds, copyUp, Array.toList_mapIdx,
    ← set_mapIdx_shift_up _ le inside]
  simp only [Array.getElem?_toList, Slot.blank_eq_ofText]

end Store

/-! ## Sheets -/

/-- All of nothing is kept. -/
theorem Slot.kept_nil (row : Nat) : kept row [] = [] := Utf8.fit_of_size_le (Nat.zero_le _)

/-- A text and what is kept of it are written alike. -/
theorem Slot.ofText_kept (row : Nat) (t : Text) : ofText row (kept row t) = ofText row t := by
  have same (t : Text) : ofText row t = pad row (Utf8.encode (kept row t)) := rfl
  rw [same, same, kept_kept]

/-- The lines of a script as they are edited, and the line the cursor is on,
counted from one. -/
structure Sheet where
  lines : List Text
  cursor : Nat

namespace Sheet

/-- So many blank lines, and the cursor on the first. -/
def blank (count : Nat) : Sheet := ⟨List.replicate count [], 1⟩

variable (s : Sheet)

/-- The cursor goes to a line, if there is such a line. -/
def moveTo (n : Nat) : Sheet := if 1 ≤ n ∧ n ≤ s.lines.length then { s with cursor := n } else s

/-- A blank line comes where the cursor is, and the last one goes. -/
def insert : Sheet := { s with lines := (s.lines.insertIdx (s.cursor - 1) []).dropLast }

/-- The line of the cursor goes, and a blank one comes at the end. -/
def delete : Sheet := { s with lines := s.lines.eraseIdx (s.cursor - 1) ++ [[]] }

/-- The line of the cursor is replaced, and the cursor goes to the next, if there is one. -/
def write (t : Text) : Sheet :=
  ⟨s.lines.set (s.cursor - 1) t, min (s.cursor + 1) s.lines.length⟩

/-- What becomes of the sheet when a text is entered, on slots of so many bytes. -/
def enter (row : Nat) (s : Sheet) (t : Text) : Sheet :=
  if t.trim = "insert".toList then s.insert
  else if t.trim = "delete".toList then s.delete
  else if t.trim = "list".toList then s
  else if "set ".toList <+: t.trim then ((trim (t.trim.drop 4)).toNat?).elim s s.moveTo
  else s.write (Slot.kept row t.trim)

/-- The slots of a store with the lines of the sheet, and with a text in its input line. -/
def slots (row : Nat) (entered : Text) : List Slot :=
  Slot.blank row :: (s.lines.map (Slot.ofText row) ++ [Slot.ofText row entered])

/-- The cursor is on a line. -/
structure Valid : Prop where
  pos : 1 ≤ s.cursor
  le : s.cursor ≤ s.lines.length

variable {s} {row n : Nat} {t entered : Text}

/-- The cursor counts from one, and the lines of a list from zero. -/
theorem Valid.exists_index (valid : s.Valid) :
    ∃ i, s.cursor = i + 1 ∧ s.cursor - 1 = i ∧ i < s.lines.length := by
  have pos := valid.pos
  have le := valid.le
  exact ⟨s.cursor - 1, by omega, rfl, by omega⟩

/-! ### Slots of an edited sheet -/

/-- A blank line comes in, and the last one falls out before the input line. -/
theorem Valid.slots_insert (valid : s.Valid) : s.insert.slots row entered =
    ((s.slots row entered).insertIdx s.cursor (Slot.blank row)).eraseIdx (s.lines.length + 1) := by
  obtain ⟨i, succ, pred, inside⟩ := valid.exists_index
  have le : i ≤ (s.lines.map (Slot.ofText row)).length := by
    rw [List.length_map]
    omega
  have length := List.length_insertIdx_of_le_length le (Slot.ofText row [])
  rw [List.length_map] at length
  rw [slots, slots, insert, succ, Nat.add_sub_cancel, Slot.blank_eq_ofText,
    List.insertIdx_succ_cons, List.eraseIdx_cons_succ, insertIdx_append _ le,
    List.eraseIdx_append_of_lt_length (by omega), List.eraseIdx_eq_dropLast length.symm,
    ← List.map_insertIdx, ← List.map_dropLast]

/-- The line of the cursor goes, and a blank one comes before the input line. -/
theorem Valid.slots_delete (valid : s.Valid) : s.delete.slots row entered =
    ((s.slots row entered).eraseIdx s.cursor).insertIdx s.lines.length (Slot.blank row) := by
  obtain ⟨i, succ, pred, inside⟩ := valid.exists_index
  have less : i < (s.lines.map (Slot.ofText row)).length := by
    rw [List.length_map]
    omega
  obtain ⟨k, count⟩ : ∃ k, s.lines.length = k + 1 := ⟨s.lines.length - 1, by omega⟩
  have length : k = ((s.lines.eraseIdx i).map (Slot.ofText row)).length := by
    rw [List.length_map, List.length_eraseIdx_of_lt inside]
    omega
  rw [slots, slots, delete, succ, Nat.add_sub_cancel, count, Slot.blank_eq_ofText,
    List.eraseIdx_cons_succ, List.eraseIdx_append_of_lt_length less, List.insertIdx_succ_cons,
    List.eraseIdx_map, insertIdx_append _ length.le, length, List.insertIdx_length_self,
    List.map_append]
  rfl

/-- The line of the cursor is replaced. -/
theorem Valid.slots_write (valid : s.Valid) (t : Text) :
    (s.write t).slots row entered = (s.slots row entered).set s.cursor (Slot.ofText row t) := by
  obtain ⟨i, succ, pred, inside⟩ := valid.exists_index
  have less : i < (s.lines.map (Slot.ofText row)).length := by
    rw [List.length_map]
    omega
  rw [slots, slots, write, succ, Nat.add_sub_cancel, List.set_cons_succ, List.set_append,
    if_pos less, List.map_set]

/-- The input line is replaced. -/
theorem slots_entered (s : Sheet) (t : Text) :
    s.slots row t = (s.slots row entered).set (s.lines.length + 1) (Slot.ofText row t) := by
  rw [slots, slots, List.set_cons_succ, List.set_append, List.length_map,
    if_neg (Nat.lt_irrefl _), Nat.sub_self]
  rfl

/-! ### The cursor -/

theorem Valid.insert (valid : s.Valid) :
    s.insert.Valid ∧ s.insert.lines.length = s.lines.length := by
  obtain ⟨i, succ, pred, inside⟩ := valid.exists_index
  have length : s.insert.lines.length = s.lines.length := by
    rw [Sheet.insert, List.length_dropLast, pred,
      List.length_insertIdx_of_le_length (Nat.le_of_lt inside), Nat.add_sub_cancel]
  exact ⟨⟨valid.pos, length.symm ▸ valid.le⟩, length⟩

theorem Valid.delete (valid : s.Valid) :
    s.delete.Valid ∧ s.delete.lines.length = s.lines.length := by
  obtain ⟨i, succ, pred, inside⟩ := valid.exists_index
  have length : s.delete.lines.length = s.lines.length := by
    rw [Sheet.delete, List.length_append, pred, List.length_eraseIdx_of_lt inside,
      List.length_singleton]
    omega
  exact ⟨⟨valid.pos, length.symm ▸ valid.le⟩, length⟩

theorem Valid.write (valid : s.Valid) (t : Text) :
    (s.write t).Valid ∧ (s.write t).lines.length = s.lines.length := by
  have pos := valid.pos
  have le := valid.le
  have length : (s.write t).lines.length = s.lines.length := List.length_set
  refine ⟨⟨?_, ?_⟩, length⟩
  · show 1 ≤ min (s.cursor + 1) s.lines.length
    omega
  · rw [length]
    exact Nat.min_le_right _ _

theorem Valid.moveTo (valid : s.Valid) (n : Nat) :
    (s.moveTo n).Valid ∧ (s.moveTo n).lines.length = s.lines.length := by
  rw [Sheet.moveTo]
  split
  · next there => exact ⟨⟨there.1, there.2⟩, rfl⟩
  · exact ⟨valid, rfl⟩

/-- **The cursor stays on a line, and there are as many lines as before**,
whatever is entered. -/
theorem Valid.enter (valid : s.Valid) (row : Nat) (t : Text) :
    (s.enter row t).Valid ∧ (s.enter row t).lines.length = s.lines.length := by
  unfold Sheet.enter
  split
  · exact valid.insert
  split
  · exact valid.delete
  split
  · exact ⟨valid, rfl⟩
  split
  · cases (trim (t.trim.drop 4)).toNat? with
    | none => exact ⟨valid, rfl⟩
    | some n => exact valid.moveTo n
  · exact valid.write _

/-! ### Texts that fit -/

/-- Slots of so many bytes keep every line as it is. -/
def Fits (row : Nat) (s : Sheet) : Prop := ∀ t ∈ s.lines, Slot.kept row t = t

theorem fits_blank (row count : Nat) : (blank count).Fits row := by
  intro t mem
  rw [List.eq_of_mem_replicate mem, Slot.kept_nil]

/-- **What is entered is cut so that it fits**, -/
theorem Fits.enter (h : s.Fits row) (t : Text) : (s.enter row t).Fits row := by
  unfold Sheet.enter
  split
  · intro line mem
    rcases List.eq_or_mem_of_mem_insertIdx ((List.dropLast_sublist _).mem mem) with rfl | old
    · exact Slot.kept_nil row
    · exact h line old
  split
  · intro line mem
    rcases List.mem_append.1 mem with old | new
    · exact h line (List.mem_of_mem_eraseIdx old)
    · rw [List.mem_singleton.1 new, Slot.kept_nil]
  split
  · exact h
  split
  · cases (trim (t.trim.drop 4)).toNat? with
    | none => exact h
    | some n =>
      rw [Option.elim_some, moveTo]
      split <;> exact h
  · intro line mem
    rcases List.mem_or_eq_of_mem_set mem with old | rfl
    · exact h line old
    · exact Slot.kept_kept row _

/-- entry by entry. -/
theorem Fits.entries (h : s.Fits row) (entries : List Text) :
    (entries.foldl (Sheet.enter row) s).Fits row := by
  induction entries generalizing s with
  | nil => exact h
  | cons t entries ih => exact ih (h.enter t)

end Sheet

namespace Machine

variable {c : Config} {m : Machine} {s : Sheet} {row : Nat} {entered : Text}

/-! ## Machines that show a sheet -/

/-- Nothing runs, and the store and the cursor are those of a sheet. -/
structure Shows (m : Machine) (s : Sheet) (row : Nat) (entered : Text) : Prop where
  stopped : m.running = false
  valid : s.Valid
  cursor : m.cursor = s.cursor
  row_eq : m.store.row = row
  slots : m.store.slots.toList = s.slots row entered

namespace Shows

theorem size (h : m.Shows s row entered) : m.store.size = s.lines.length + 2 := by
  have length := congrArg List.length h.slots
  rw [Array.length_toList, Sheet.slots, List.length_cons, List.length_append, List.length_map,
    List.length_singleton] at length
  exact length

theorem inputSlot (h : m.Shows s row entered) : m.store.inputSlot = s.lines.length + 1 := by
  rw [Store.inputSlot, h.size]
  rfl

theorem lastLine (h : m.Shows s row entered) : m.lastLine = s.lines.length := by
  rw [Machine.lastLine, h.inputSlot]
  rfl

/-- The lines from the cursor on are there to be moved. -/
theorem range (h : m.Shows s row entered) :
    m.cursor ≤ m.lastLine ∧ m.lastLine < m.store.size := by
  have le := h.valid.le
  rw [h.cursor, h.lastLine, h.size]
  omega

/-- A line reads as the text in its place. -/
theorem read (h : m.Shows s row entered) {line : Nat} {t : Text}
    (there : (s.slots row entered)[line]? = some (Slot.ofText row t)) :
    m.store.read line = .ok (Slot.kept row t) := by
  rw [← h.slots, Array.getElem?_toList] at there
  rw [Store.read, Store.slot, there, ← Slot.text_ofText]
  rfl

/-- Whatever is entered goes to the input line. -/
theorem noting (h : m.Shows s row entered) (t : Text) : (m.noting t).Shows s row t := by
  refine ⟨h.stopped, h.valid, h.cursor, h.row_eq, ?_⟩
  rw [Machine.noting, Store.writeIfPresent, Array.toList_setIfInBounds, h.slots, h.inputSlot,
    h.row_eq]
  exact (s.slots_entered t).symm

/-- A blank line is inserted, which cannot fail. -/
theorem insert (h : m.Shows s row entered) :
    ∃ store, m.store.insert m.cursor m.lastLine = (none, store) ∧
      Shows { m with store } s.insert row entered := by
  obtain ⟨store, inserted, row_eq, slots⟩ := Store.insert_eq h.range.1 h.range.2
  refine ⟨store, inserted, h.stopped, h.valid.insert.1, h.cursor, row_eq.trans h.row_eq, ?_⟩
  rw [h.valid.slots_insert, slots, h.slots, h.cursor, h.lastLine, h.row_eq]

/-- The line of the cursor is deleted, which cannot fail. -/
theorem delete (h : m.Shows s row entered) :
    ∃ store, m.store.remove m.cursor m.lastLine = (none, store) ∧
      Shows { m with store } s.delete row entered := by
  obtain ⟨store, removed, row_eq, slots⟩ := Store.remove_eq h.range.1 h.range.2
  refine ⟨store, removed, h.stopped, h.valid.delete.1, h.cursor, row_eq.trans h.row_eq, ?_⟩
  rw [h.valid.slots_delete, slots, h.slots, h.cursor, h.lastLine, h.row_eq]

/-- The line of the cursor is written, which cannot fail. -/
theorem write (h : m.Shows s row entered) (t : Text) :
    ∃ store, m.store.write m.cursor t = (none, store) ∧
      Shows { m with store, cursor := min (m.cursor + 1) m.lastLine }
        (s.write (Slot.kept row t)) row entered := by
  have there : m.cursor < m.store.size := Nat.lt_of_le_of_lt h.range.1 h.range.2
  refine ⟨_, m.store.write_of_lt t there, h.stopped, (h.valid.write _).1, ?_, h.row_eq, ?_⟩
  · show min (m.cursor + 1) m.lastLine = _
    rw [h.cursor, h.lastLine]
    rfl
  · rw [h.valid.slots_write, Slot.ofText_kept, Store.writeIfPresent, Array.toList_setIfInBounds,
      h.slots, h.cursor, h.row_eq]

/-- The cursor is moved. -/
theorem moveCursor (h : m.Shows s row entered) (number : Option Nat) :
    (m.moveCursor number).Shows (number.elim s s.moveTo) row entered := by
  cases number with
  | none => exact h
  | some n =>
    rw [Machine.moveCursor, h.lastLine, Option.elim_some, Sheet.moveTo]
    split
    · next there => exact ⟨h.stopped, ⟨there.1, there.2⟩, rfl, h.row_eq, h.slots⟩
    · exact h

/-- **What is entered is done to the sheet**, unless it starts a run or clears the store. -/
theorem edit (h : m.Shows s row entered) {t : Text} (run : t.trim ≠ "run".toList)
    (clear : t.trim ≠ "clear".toList) :
    (m.edit (Edit.ofText t.trim)).Shows (s.enter row t) row entered := by
  rw [Edit.ofText_trim, if_neg run, if_neg clear]
  unfold Sheet.enter
  split
  · obtain ⟨store, inserted, shows⟩ := h.insert
    rw [Machine.edit, inserted]
    exact shows
  split
  · obtain ⟨store, removed, shows⟩ := h.delete
    rw [Machine.edit, removed]
    exact shows
  split
  · exact ⟨h.stopped, h.valid, h.cursor, h.row_eq, h.slots⟩
  split
  · exact h.moveCursor _
  · obtain ⟨store, written, shows⟩ := h.write t.trim
    rw [Machine.edit, written]
    exact shows

/-- So the sheet follows the entries. -/
theorem receive (h : m.Shows s row entered) {t : Text} (plain : breakChar ∉ t)
    (run : t.trim ≠ "run".toList) (clear : t.trim ≠ "clear".toList) :
    (m.receive t).2.Shows (s.enter row t) row t := by
  rw [receive_of_stopped plain h.stopped]
  exact (h.noting t).edit run clear

/-- A machine that does not run leaves the sheet alone. -/
theorem execute (h : m.Shows s row entered) (cycles : Nat) :
    (m.execute cycles).2.Shows s row entered := by
  cases cycles with
  | zero => exact h
  | succ n =>
    obtain ⟨stopped, valid, cursor, row_eq, slots⟩ := h
    have cycled := m.cycled
    generalize cycle : m.cycle = done at cycled
    obtain ⟨told, m'⟩ := done
    cases cycled with
    | print some =>
      rw [execute_succ_of_told n cycle]
      exact ⟨stopped, valid, cursor, row_eq, slots⟩
    | list quiet asked =>
      rw [execute_succ_of_told n cycle]
      exact ⟨stopped, valid, cursor, row_eq, slots⟩
    | stopped quiet none _ =>
      rw [execute_succ_of_told n cycle]
      exact ⟨stopped, valid, cursor, row_eq, slots⟩
    | broken _ _ running | input _ _ running | step _ _ running =>
      rw [stopped] at running
      cases running

end Shows

/-! ## Editing -/

end Machine

namespace HostCall

/-- The text a call enters, if it enters one. -/
def text? : HostCall → Option Text
  | receive t => some t
  | _ => none

/-- A call that may be made while the script is edited: it enters no break,
starts no run and clears no store, and it does not write to a line itself. -/
def Edits : HostCall → Prop
  | receive t =>
    Machine.breakChar ∉ t ∧ t.trim ≠ "run".toList ∧ t.trim ≠ "clear".toList
  | execute _ | interrupt | service => True
  | change _ => False

instance (k : HostCall) : Decidable k.Edits :=
  match k with
  | receive t =>
    inferInstanceAs (Decidable
      (Machine.breakChar ∉ t ∧ t.trim ≠ "run".toList ∧ t.trim ≠ "clear".toList))
  | execute _ | interrupt | service => inferInstanceAs (Decidable True)
  | change _ => inferInstanceAs (Decidable False)

end HostCall

namespace Machine

variable {c : Config} {m : Machine} {s : Sheet} {row : Nat} {entered : Text}

/-- A machine goes on showing the sheet, as it is edited. -/
theorem Shows.calls (h : m.Shows s row entered) {ks : List HostCall} (edits : ∀ k ∈ ks, k.Edits) :
    (m.calls ks).Shows ((ks.filterMap HostCall.text?).foldl (Sheet.enter row) s) row
      ((ks.filterMap HostCall.text?).getLast?.getD entered) := by
  induction ks generalizing m s entered with
  | nil => exact h
  | cons k ks ih =>
    have later : ∀ k ∈ ks, k.Edits := fun k mem => edits k (List.mem_cons_of_mem _ mem)
    have now := edits k List.mem_cons_self
    rw [calls_cons]
    cases k with
    | receive t =>
      have texts : (.receive t :: ks).filterMap HostCall.text? = t :: ks.filterMap HostCall.text? :=
        rfl
      rw [texts, List.foldl_cons, List.getLast?_cons, Option.getD_some]
      exact ih (h.receive now.1 now.2.1 now.2.2) later
    | execute cycles => exact ih (h.execute cycles) later
    | interrupt | service => exact ih ⟨h.stopped, h.valid, h.cursor, h.row_eq, h.slots⟩ later
    | change _ => exact absurd now id

/-- A new machine shows a blank sheet. -/
theorem shows_new {board : Board} {g : Generator} (made : Machine.new c board g = .ok m) :
    m.Shows (.blank (c.lines - 2)) c.row [] := by
  have lines : 4 ≤ c.lines := (sound_new made).valid.lines_ge
  have row : c.row ≠ 0 := by
    have := (sound_new made).valid.row_ge
    omega
  obtain ⟨k, count⟩ : ∃ k, c.lines = k + 2 := ⟨c.lines - 2, by omega⟩
  simp only [Machine.new, Config.validate] at made
  split at made
  · cases made
  cases made
  have slots : List.replicate (k + 2) (Slot.blank c.row) = (Sheet.blank k).slots c.row [] := by
    rw [Sheet.slots, Sheet.blank, List.map_replicate, ← Slot.blank_eq_ofText,
      ← List.replicate_succ', ← List.replicate_succ]
  refine ⟨rfl, ⟨Nat.le_refl 1, ?_⟩, rfl, rfl, ?_⟩
  · rw [Sheet.blank, List.length_replicate]
    show 1 ≤ c.lines - 2
    omega
  · rw [count, Nat.add_sub_cancel, ← slots, Store.new]
    simp [row]

/-- **The editor works as on a sheet** of `c.lines - 2` lines. Whatever is
entered in a machine that was new, as long as no run is started and the store
is not cleared, the cursor and the slots are those of the sheet on which the
same was entered, line 0 is blank and the input line holds the last entry; read
back, each line is the text that the sheet has there. Whatever is entered next,
neither the input line nor an insertion, a deletion or a new text at the cursor
is out of range. -/
theorem editing_follows_sheet {board : Board} {g : Generator}
    (made : Machine.new c board g = .ok m) {ks : List HostCall} (edits : ∀ k ∈ ks, k.Edits) :
    let entries := ks.filterMap HostCall.text?
    let sheet := entries.foldl (Sheet.enter c.row) (.blank (c.lines - 2))
    sheet.lines.length = c.lines - 2 ∧
    (m.calls ks).running = false ∧
    (m.calls ks).cursor = sheet.cursor ∧
    (m.calls ks).store.slots.toList = Slot.blank c.row ::
      (sheet.lines.map (Slot.ofText c.row) ++ [Slot.ofText c.row (entries.getLast?.getD [])]) ∧
    (∀ index t, sheet.lines[index]? = some t → (m.calls ks).store.read (index + 1) = .ok t) ∧
    (m.calls ks).store.read 0 = .ok [] ∧
    (m.calls ks).store.read (m.calls ks).store.inputSlot =
      .ok (Slot.kept c.row (entries.getLast?.getD [])) ∧
    ∀ t, (∃ store, (m.calls ks).store.write (m.calls ks).store.inputSlot t = (none, store)) ∧
      let noted := (m.calls ks).noting t
      (∃ store, noted.store.insert noted.cursor noted.lastLine = (none, store)) ∧
      (∃ store, noted.store.remove noted.cursor noted.lastLine = (none, store)) ∧
      ∃ store, noted.store.write noted.cursor t.trim = (none, store) := by
  intro entries sheet
  have shows := (shows_new made).calls edits
  refine ⟨?_, shows.stopped, shows.cursor, shows.slots, fun index t there => ?_, ?_, ?_,
    fun t => ⟨?_, ?_, ?_, ?_⟩⟩
  · have size := shows.size
    rw [((Reachable.new made).calls ks).sound.size] at size
    exact (Nat.sub_eq_of_eq_add size).symm
  · have fits := (Sheet.fits_blank c.row (c.lines - 2)).entries entries t
      (List.mem_of_getElem? there)
    have inside : index < sheet.lines.length := (List.getElem?_eq_some_iff.1 there).1
    have read : (m.calls ks).store.read (index + 1) = .ok (Slot.kept c.row t) := by
      refine shows.read ?_
      rw [Sheet.slots, List.getElem?_cons_succ, List.getElem?_append_left (by simpa using inside),
        List.getElem?_map, there, Option.map_some]
    rw [read, fits]
  · exact shows.read (t := []) rfl
  · rw [shows.inputSlot]
    refine shows.read ?_
    rw [Sheet.slots, List.getElem?_cons_succ, List.getElem?_append_right (by simp),
      List.length_map, Nat.sub_self]
    rfl
  · have there : (m.calls ks).store.inputSlot < (m.calls ks).store.size := by
      rw [shows.inputSlot, shows.size]
      omega
    exact ⟨_, Store.write_of_lt _ t there⟩
  · obtain ⟨store, inserted, -⟩ := (shows.noting t).insert
    exact ⟨store, inserted⟩
  · obtain ⟨store, removed, -⟩ := (shows.noting t).delete
    exact ⟨store, removed⟩
  · obtain ⟨store, written, -⟩ := (shows.noting t).write t.trim
    exact ⟨store, written⟩

/-- With two lines to a script, the first of them is cut and then moved down. -/
theorem editing_follows_sheet_two :
    ∃ m, Machine.new { lines := 4, row := 8 } { clock := .stepped 0 } default = .ok m ∧
      let edited := m.calls [.receive "abcdefghij".toList, .receive " set 1".toList, .execute 5,
        .receive "insert ".toList, .receive "set 9".toList]
      edited.cursor = 1 ∧ edited.store.slots.toList =
        [Slot.blank 8, Slot.blank 8, Slot.ofText 8 "abcdefg".toList,
          Slot.ofText 8 "set 9".toList] ∧
      edited.store.read 1 = .ok [] ∧ edited.store.read 2 = .ok "abcdefg".toList := by
  obtain ⟨-, -, cursor, slots, read, -⟩ :=
    @editing_follows_sheet { lines := 4, row := 8 } _ { clock := .stepped 0 } default rfl
      [.receive "abcdefghij".toList, .receive " set 1".toList, .execute 5,
        .receive "insert ".toList, .receive "set 9".toList] (by decide +kernel)
  exact ⟨_, rfl, cursor.trans (by decide +kernel), slots.trans (by decide +kernel),
    read 0 [] (by decide +kernel), read 1 "abcdefg".toList (by decide +kernel)⟩

end Machine

end LineScript
