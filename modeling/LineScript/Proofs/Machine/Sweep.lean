import LineScript.Machine.Transfer
import LineScript.Proofs.Board.Eeprom
import LineScript.Proofs.Store.Writing
/-!
# Sweeps over lines

A transfer goes through lines one after another and stops at the first that
fails. It is the same sweep for both directions: all that differs is what is
done to one line (`saveLine`, `loadLine`). Which line it stops at can be told beforehand (`Blocked`), from
what is there before any line was moved. `sweep_of_stopsAt` is the rule for
what is kept from line to line; with it `saving_sweep` and `loading_sweep` say
what stands on the chip, and in the lines, when the transfer has stopped.
-/

namespace LineScript

/-! ## One transfer more or less -/

namespace Eeprom

variable {e e' : Eeprom} {chip address count : Nat} {bytes : List UInt8}

/-- A transfer that begins is one less that is left. -/
theorem budget_access (begins : e.access chip address count = .ok e') :
    e'.budget = e.budget.map (· - 1) := by
  obtain ⟨chips, file, budget⟩ := e
  unfold access at begins
  split at begins
  · cases begins
  · split at begins
    · cases begins
    · match budget with
      | none | some (_ + 1) =>
        cases begins
        rfl
      | some 0 => cases begins

/-- No transfer begins without a chip, outside it, or when none is left. -/
theorem access_fails (h : chipCount ≤ chip ∨ chipSize < address + count ∨ e.budget = some 0) :
    ∃ fault, e.access chip address count = .error fault := by
  unfold access
  split
  · exact ⟨_, rfl⟩
  · split
    · exact ⟨_, rfl⟩
    · have none : e.budget = some 0 := by
        rcases h with chip | address | none
        · omega
        · omega
        · exact none
      rw [none]
      exact ⟨_, rfl⟩

theorem budget_write (made : e.write chip address bytes = (none, e')) :
    e'.budget = e.budget.map (· - 1) := by
  unfold write at made
  split at made
  · cases made
  · next begun begins =>
    rw [← budget_access begins]
    unfold save at made
    split at made
    · cases made
      rfl
    · split at made
      · cases made
        rfl
      · cases made

theorem write_fails (h : chipCount ≤ chip ∨ chipSize < address + bytes.length ∨
    e.budget = some 0) : ∃ fault, e.write chip address bytes = (some fault, e) := by
  obtain ⟨fault, failed⟩ := access_fails h
  exact ⟨fault, by rw [write, failed]⟩

/-- What is read are the bytes that are there. -/
theorem read_eq_peek (address count : Nat) (serves : e.Serves 1) (small : chip < chipCount)
    (inside : address + count ≤ chipSize) :
    ∃ e', e.read chip address count = .ok (e.peek chip address count, e') ∧
      e'.chips = e.chips ∧ e'.budget = e.budget.map (· - 1) := by
  obtain ⟨budget, begins, -⟩ := access_eq small inside serves
  refine ⟨{ e with budget }, ?_, rfl, budget_access begins⟩
  rw [Eeprom.read, begins]
  rfl

theorem read_fails (h : chipCount ≤ chip ∨ chipSize < address + count ∨ e.budget = some 0) :
    ∃ fault, e.read chip address count = .error fault := by
  obtain ⟨fault, failed⟩ := access_fails h
  refine ⟨fault, ?_⟩
  rw [Eeprom.read, failed]
  rfl

end Eeprom

namespace Transfer

/-! ## Sweeps -/

section Sweep

variable {σ : Type} {attempt : Nat → σ → Bool × σ} {blocked : Nat → Prop}
  {P Q : Nat → σ → Prop} {count line stop k : Nat} {x : σ}

/-- The first blocked one of `count` lines from `line` on, or the line behind
them if none is. -/
structure StopsAt (blocked : Nat → Prop) (line count stop : Nat) : Prop where
  low : line ≤ stop
  high : stop ≤ line + count
  free : ∀ k, line ≤ k → k < stop → ¬ blocked k
  held : stop < line + count → blocked stop

theorem StopsAt.le_of_blocked (h : StopsAt blocked line count stop) (from_le : line ≤ k)
    (held : blocked k) : stop ≤ k := by
  by_contra passed
  exact h.free k from_le (by omega) held

/-- It stops at a line that is blocked, -/
theorem StopsAt.eq_of_blocked (h : StopsAt blocked line count stop) (held : blocked line) :
    stop = line :=
  Nat.le_antisymm (h.le_of_blocked (Nat.le_refl line) held) h.low

/-- and not at one that is free. -/
theorem StopsAt.next (h : StopsAt blocked line (count + 1) stop) (free : ¬ blocked line) :
    StopsAt blocked (line + 1) count stop := by
  have past : line ≠ stop := by
    rintro rfl
    exact free (h.held (by omega))
  have low := h.low
  have high := h.high
  refine ⟨by omega, by omega, ?_, ?_⟩
  · intro k from_le before
    exact h.free k (by omega) before
  · intro before
    exact h.held (by omega)

/-- Nothing stops it where no line is blocked. -/
theorem StopsAt.eq_end (h : StopsAt blocked line count stop)
    (free : ∀ k, line ≤ k → k < line + count → ¬ blocked k) : stop = line + count := by
  by_contra early
  have high := h.high
  exact free stop h.low (by omega) (h.held (by omega))

/-- There is always such a line. -/
theorem exists_stopsAt (blocked : Nat → Prop) (count line : Nat) :
    ∃ stop, StopsAt blocked line count stop := by
  induction count generalizing line with
  | zero => exact ⟨line, Nat.le_refl _, Nat.le_refl _, by omega, by omega⟩
  | succ count ih =>
    by_cases held : blocked line
    · exact ⟨line, Nat.le_refl _, by omega, by omega, fun _ => held⟩
    · obtain ⟨stop, h⟩ := ih (line + 1)
      have low := h.low
      have high := h.high
      refine ⟨stop, by omega, by omega, ?_, ?_⟩
      · intro k from_le before
        rcases Nat.eq_or_lt_of_le from_le with rfl | later
        · exact held
        · exact h.free k later before
      · intro before
        exact h.held (by omega)

/-- **What a sweep keeps.** What every line that goes well passes on to the
next, and every line that fails leaves behind, stands at the end for the line
where the sweep has stopped. -/
theorem sweep_of_stopsAt
    (going : ∀ line x, P line x → ¬ blocked line →
      ∃ x', attempt line x = (true, x') ∧ P (line + 1) x')
    (halting : ∀ line x, P line x → blocked line →
      ∃ x', attempt line x = (false, x') ∧ Q line x')
    (ended : ∀ line x, P line x → Q line x)
    (stops : StopsAt blocked line count stop) (start : P line x) :
    (sweep attempt count line x).1 = min count (stop + 1 - line) ∧
      Q stop (sweep attempt count line x).2 := by
  -- over the lines that are left; the stop stays the same throughout
  induction count generalizing line x with
  | zero =>
    obtain rfl := Nat.le_antisymm stops.high stops.low
    refine ⟨?_, ended _ x start⟩
    simp only [sweep, Nat.zero_min]
  | succ count ih =>
    by_cases held : blocked line
    · obtain rfl := stops.eq_of_blocked held
      obtain ⟨x', made, left⟩ := halting _ x start held
      simp only [sweep, made]
      exact ⟨by omega, left⟩
    · obtain ⟨x', made, passed⟩ := going line x start held
      have later := stops.next held
      obtain ⟨tried, left⟩ := ih later passed
      have low := later.low
      simp only [sweep, made]
      exact ⟨by omega, left⟩

end Sweep

/-! ## What stops a transfer -/

variable {s s₀ : Store} {e e₀ : Eeprom} {chip first line count stop : Nat}

/-- A record ends before that of any later line begins. -/
theorem record_le {row j : Nat} (before : j < line) : j * row + row ≤ line * row := by
  rw [← Nat.succ_mul]
  exact Nat.mul_le_mul_right row before

/-- A line that a transfer from `first` on cannot get past: there is no such
chip, no such line, no room on the chip, or no transfer left after those of
the lines before. -/
inductive Blocked (s : Store) (e : Eeprom) (chip first line : Nat) : Prop where
  | chip (absent : chipCount ≤ chip)
  | line (absent : s.size ≤ line)
  | address (outside : chipSize < (line + 1) * s.row)
  | budget {left : Nat} (ends : e.budget = some left) (used : left ≤ line - first)

/-- A line that is not blocked has all it needs. -/
structure Free (s : Store) (e : Eeprom) (chip first line : Nat) : Prop where
  small : chip < chipCount
  inside : line < s.size
  room : line * s.row + s.row ≤ chipSize
  serves : ∀ left, e.budget = some left → line - first < left

theorem free_iff_not_blocked : Free s e chip first line ↔ ¬ Blocked s e chip first line := by
  constructor
  · intro free blocked
    cases blocked with
    | chip absent => exact Nat.not_le.2 free.small absent
    | line absent => exact Nat.not_le.2 free.inside absent
    | address outside =>
      rw [Nat.succ_mul] at outside
      exact Nat.not_lt.2 free.room outside
    | budget ends used => exact Nat.not_le.2 (free.serves _ ends) used
  · intro h
    refine ⟨?_, ?_, ?_, ?_⟩
    · exact Nat.lt_of_not_le fun absent => h (.chip absent)
    · exact Nat.lt_of_not_le fun absent => h (.line absent)
    · rw [← Nat.succ_mul]
      exact Nat.le_of_not_lt fun outside => h (.address outside)
    · intro left ends
      exact Nat.lt_of_not_le fun used => h (.budget ends used)

/-- A transfer that has all it needs gets to its end. -/
theorem stopsAt_end (small : chip < chipCount) (serves : e.Serves count)
    (lines : line + count ≤ s.size) (inside : (line + count) * s.row ≤ chipSize) :
    StopsAt (Blocked s e chip line) line count (line + count) := by
  obtain ⟨stop, stops⟩ := exists_stopsAt (Blocked s e chip line) count line
  obtain rfl : stop = line + count := by
    refine stops.eq_end fun k low high => free_iff_not_blocked.1 ⟨small, by omega, ?_, ?_⟩
    · exact (record_le high).trans inside
    · intro left ends
      have enough := serves left ends
      omega
  exact stops

/-- The transfers of the lines from `first` up to `line` have been made. -/
def Spent (e₀ : Eeprom) (first line : Nat) (e : Eeprom) : Prop :=
  e.budget = e₀.budget.map (· - (line - first))

theorem spent_first (first : Nat) (e : Eeprom) : Spent e first first e := by
  rw [Spent, Nat.sub_self]
  cases e.budget <;> rfl

theorem Spent.next {e' : Eeprom} (h : Spent e₀ first line e) (low : first ≤ line)
    (spent : e'.budget = e.budget.map (· - 1)) : Spent e₀ first (line + 1) e' := by
  rw [Spent] at h ⊢
  rw [spent, h, Option.map_map]
  congr 1
  funext left
  simp only [Function.comp_apply]
  omega

/-- There is one more for a line that is free, -/
theorem Spent.serves (h : Spent e₀ first line e) (free : Free s e₀ chip first line) :
    e.Serves 1 := by
  intro left ends
  rw [h] at ends
  obtain ⟨whole, given, rfl⟩ := Option.map_eq_some_iff.1 ends
  have more := free.serves whole given
  omega

/-- and none for one that is blocked, unless that is for another reason. -/
theorem Spent.fails (h : Spent e₀ first line e) (blocked : Blocked s e₀ chip first line)
    (inside : line < s.size) :
    chipCount ≤ chip ∨ chipSize < line * s.row + s.row ∨ e.budget = some 0 := by
  cases blocked with
  | chip absent => exact .inl absent
  | line absent => omega
  | address outside =>
    rw [Nat.succ_mul] at outside
    exact .inr (.inl outside)
  | budget ends used =>
    refine .inr (.inr ?_)
    rw [h, ends, Option.map_some, Nat.sub_eq_zero_of_le used]

/-! ## Saving -/

/-- The lines from `first` up to `line` stand on the chip, and nothing else
has changed there. -/
structure Saving (s : Store) (e₀ : Eeprom) (chip first line : Nat) (e : Eeprom) : Prop where
  low : first ≤ line
  sound : e.Sound
  saves : e.Saves
  spent : Spent e₀ first line e
  records : ∀ j slot, first ≤ j → j < line → s.slots[j]? = some slot → ∀ i < s.row,
    e.byte? chip (j * s.row + i) = slot[i]?
  others : ∀ k a, k ≠ chip ∨ a < first * s.row ∨ line * s.row ≤ a → e.byte? k a = e₀.byte? k a

theorem saving_first (sound : e₀.Sound) (saves : e₀.Saves) : Saving s e₀ chip first first e₀ where
  low := Nat.le_refl first
  sound := sound
  saves := saves
  spent := spent_first first e₀
  records j slot from_le before := by omega
  others k a other := rfl

/-- One more line, -/
theorem Saving.next (h : Saving s e₀ chip first line e) (clean : s.Clean)
    (free : Free s e₀ chip first line) :
    ∃ e', saveLine chip s line e = (true, e') ∧ Saving s e₀ chip first (line + 1) e' := by
  obtain ⟨bytes, there⟩ := s.exists_slot free.inside
  have length := (clean.getElem there).length
  have width : (line + 1) * s.row = line * s.row + s.row := Nat.succ_mul line s.row
  obtain ⟨e', written, sound, -, saves, changed⟩ := Eeprom.write_eq (line * s.row) bytes h.sound
    (h.spent.serves free) h.saves free.small (by rw [length]; exact free.room)
  refine ⟨e', ?_, ?_⟩
  · simp only [saveLine, Store.slot, there, written]
  · refine ⟨by have := h.low; omega, sound, saves,
      h.spent.next h.low (Eeprom.budget_write written), ?_, ?_⟩
    · intro j slot from_le before held i less
      rcases Nat.lt_succ_iff_lt_or_eq.1 before with earlier | rfl
      -- the records before this one end where it begins
      · have below : j * s.row + s.row ≤ line * s.row := record_le earlier
        rw [changed, if_neg (by omega)]
        exact h.records j slot from_le earlier held i less
      · obtain rfl : bytes = slot := Option.some.inj (there.symm.trans held)
        rw [changed, if_pos (by omega), Nat.add_sub_cancel_left]
    · intro k a other
      have above : first * s.row ≤ line * s.row := Nat.mul_le_mul_right s.row h.low
      rw [changed, if_neg (by omega)]
      exact h.others k a (by omega)

/-- and one that cannot be saved. -/
theorem Saving.halt (h : Saving s e₀ chip first line e) (clean : s.Clean)
    (blocked : Blocked s e₀ chip first line) : saveLine chip s line e = (false, e) := by
  rcases Nat.lt_or_ge line s.size with inside | outside
  · obtain ⟨bytes, there⟩ := s.exists_slot inside
    have length := (clean.getElem there).length
    have fails : chipCount ≤ chip ∨ chipSize < line * s.row + bytes.length ∨
        e.budget = some 0 := by
      rw [length]
      exact h.spent.fails blocked inside
    obtain ⟨fault, failed⟩ := Eeprom.write_fails fails
    simp only [saveLine, Store.slot, there, failed]
  · simp only [saveLine, Store.slot, Array.getElem?_eq_none outside]

/-- **What a save leaves on the chip** when it has stopped. -/
theorem saving_sweep (clean : s.Clean) (sound : e₀.Sound) (saves : e₀.Saves)
    (stops : StopsAt (Blocked s e₀ chip first) first count stop) :
    (save chip s count first e₀).1 = min count (stop + 1 - first) ∧
      Saving s e₀ chip first stop (save chip s count first e₀).2 := by
  refine sweep_of_stopsAt (P := Saving s e₀ chip first) ?_ ?_ (fun _ _ => id) stops
    (saving_first sound saves)
  · intro line e h free
    exact h.next clean (free_iff_not_blocked.2 free)
  · intro line e h blocked
    exact ⟨e, h.halt clean blocked, h⟩

/-- What was saved is what is read from its place. -/
theorem bytesAt_of_byte? {c : Chip} {slot : Slot} {address : Nat} (held : e.chips[chip]? = some c)
    (inside : address + slot.length ≤ c.size)
    (bytes : ∀ i < slot.length, e.byte? chip (address + i) = slot[i]?) :
    c.bytesAt address slot.length = slot := by
  refine List.ext_getElem? fun i => ?_
  rcases Nat.lt_or_ge i slot.length with less | more
  · rw [Chip.getElem?_bytesAt inside less, ← bytes i less, Eeprom.byte?, held]
    rfl
  · rw [List.getElem?_eq_none more, List.getElem?_eq_none]
    rw [Chip.length_bytesAt inside]
    exact more

/-- The lines from `first` up to `stop` stand on the chip byte for byte, and no
other byte of any chip has changed. -/
structure Saved (s : Store) (e₀ : Eeprom) (chip first stop : Nat) (e : Eeprom) : Prop where
  records : ∀ line, first ≤ line → line < stop →
    s.slot line = .ok (e.peek chip (line * s.row) s.row)
  others : ∀ k a, k ≠ chip ∨ a < first * s.row ∨ stop * s.row ≤ a → e.byte? k a = e₀.byte? k a

theorem Saving.saved (h : Saving s e₀ chip first stop e) (clean : s.Clean)
    (free : ∀ line, first ≤ line → line < stop → Free s e₀ chip first line) :
    Saved s e₀ chip first stop e := by
  refine ⟨?_, h.others⟩
  intro line low before
  have free := free line low before
  obtain ⟨slot, there⟩ := s.exists_slot free.inside
  have length := (clean.getElem there).length
  obtain ⟨c, held, size⟩ := h.sound.getElem? free.small
  have record : c.bytesAt (line * s.row) slot.length = slot := by
    refine bytesAt_of_byte? held (by rw [length, size]; exact free.room) ?_
    intro i less
    exact h.records line slot low before there i (length ▸ less)
  rw [length] at record
  rw [Store.slot_eq_ok_iff, there, Eeprom.peek, if_pos free.room, held, Option.map_some,
    Option.getD_some, record]

/-! ## Loading -/

/-- The lines from `first` up to `line` hold what stands on the chip, and no
other line has changed. -/
structure Loading (s₀ : Store) (e₀ : Eeprom) (chip first line : Nat) (x : Store × Eeprom) :
    Prop where
  shape : s₀.SameShape x.1
  chips : x.2.chips = e₀.chips
  lines : ∀ j, first ≤ j → j < line → x.1.slots[j]? =
    some (Slot.ofText s₀.row (Slot.textOfBytes (e₀.peek chip (j * s₀.row) s₀.row)))
  others : ∀ j, j < first ∨ line ≤ j → x.1.slots[j]? = s₀.slots[j]?

/-- One more line, -/
theorem Loading.next (h : Loading s₀ e₀ chip first line (s, e)) (low : first ≤ line)
    (spent : Spent e₀ first line e) (free : Free s₀ e₀ chip first line) :
    ∃ s' e', loadLine chip line (s, e) = (true, s', e') ∧
      Loading s₀ e₀ chip first (line + 1) (s', e') ∧ Spent e₀ first (line + 1) e' := by
  have row : s.row = s₀.row := h.shape.row
  have size : s.size = s₀.size := h.shape.size
  have inside : line < s.size := size ▸ free.inside
  have chips : e.chips = e₀.chips := h.chips
  obtain ⟨e', read, same, budget⟩ := Eeprom.read_eq_peek (line * s₀.row) s₀.row
    (spent.serves free) free.small free.room
  have record : e.peek chip (line * s₀.row) s₀.row = e₀.peek chip (line * s₀.row) s₀.row := by
    rw [Eeprom.peek, Eeprom.peek, chips]
  rw [record] at read
  refine ⟨s.writeIfPresent line (Slot.textOfBytes (e₀.peek chip (line * s₀.row) s₀.row)), e', ?_,
    ⟨?_, same.trans chips, ?_, ?_⟩, spent.next low budget⟩
  · simp only [loadLine, row, read, Store.writeBytes, s.write_of_lt _ inside]
  · exact ⟨Array.size_setIfInBounds.trans size, row⟩
  · intro j from_le before
    rcases Nat.lt_succ_iff_lt_or_eq.1 before with earlier | rfl
    · rw [Store.getElem?_writeIfPresent_of_ne _ (by omega)]
      exact h.lines j from_le earlier
    · rw [Store.getElem?_writeIfPresent_self inside, row]
  · intro j other
    rw [Store.getElem?_writeIfPresent_of_ne _ (by omega)]
    exact h.others j (by omega)

/-- and one that cannot be loaded, though its bytes may have been read. -/
theorem Loading.halt (h : Loading s₀ e₀ chip first line (s, e)) (spent : Spent e₀ first line e)
    (blocked : Blocked s₀ e₀ chip first line) :
    ∃ e', loadLine chip line (s, e) = (false, s, e') ∧
      Loading s₀ e₀ chip first line (s, e') := by
  have row : s.row = s₀.row := h.shape.row
  have size : s.size = s₀.size := h.shape.size
  cases read : e.read chip (line * s.row) s.row with
  | error fault => exact ⟨e, by simp only [loadLine, read], h⟩
  | ok result =>
    obtain ⟨bytes, e'⟩ := result
    -- a read that went well leaves one reason only
    have absent : s.size ≤ line := by
      by_contra inside
      have fails := spent.fails blocked (by omega)
      obtain ⟨fault, failed⟩ := Eeprom.read_fails fails
      rw [row, failed] at read
      cases read
    refine ⟨e', ?_, ⟨h.shape, (Eeprom.chips_read read).trans h.chips, h.lines, h.others⟩⟩
    simp only [loadLine, read, Store.writeBytes, Store.write, Store.put,
      if_neg (Nat.not_lt.2 absent)]

/-- **What a load leaves in the lines** when it has stopped. -/
theorem loading_sweep (stops : StopsAt (Blocked s₀ e₀ chip first) first count stop) :
    (load chip count first s₀ e₀).1 = min count (stop + 1 - first) ∧
      Loading s₀ e₀ chip first stop (load chip count first s₀ e₀).2 := by
  refine sweep_of_stopsAt
    (P := fun line x => first ≤ line ∧ Spent e₀ first line x.2 ∧ Loading s₀ e₀ chip first line x)
    ?_ ?_ (fun _ _ h => h.2.2) stops
    ⟨Nat.le_refl first, spent_first first e₀, ⟨rfl, rfl⟩, rfl, by omega, fun _ _ => rfl⟩
  · rintro line ⟨s, e⟩ ⟨low, spent, h⟩ free
    obtain ⟨s', e', made, next, spent⟩ := h.next low spent (free_iff_not_blocked.2 free)
    exact ⟨(s', e'), made, by omega, spent, next⟩
  · rintro line ⟨s, e⟩ ⟨low, spent, h⟩ blocked
    obtain ⟨e', made, left⟩ := h.halt spent blocked
    exact ⟨(s, e'), made, left⟩

/-- The lines from `first` up to `stop` hold the text of what stands on the
chip, as far as there is room, and no other line has changed. -/
structure Loaded (s₀ : Store) (e₀ : Eeprom) (chip first stop : Nat) (s : Store) : Prop where
  lines : ∀ line, first ≤ line → line < stop → ∃ t slot,
    Utf8.Lossy ((e₀.peek chip (line * s₀.row) s₀.row).takeWhile (· ≠ 0)) t ∧
    s.slot line = .ok slot ∧ Slot.Holds s₀.row t slot
  others : ∀ line, line < first ∨ stop ≤ line → s.slot line = s₀.slot line

theorem Loading.loaded {x : Store × Eeprom} (h : Loading s₀ e₀ chip first stop x)
    (pos : 1 ≤ s₀.row) : Loaded s₀ e₀ chip first stop x.1 := by
  constructor
  · intro line low before
    exact ⟨_, _, Utf8.lossy_iff.2 rfl, Store.slot_eq_ok_iff.2 (h.lines line low before),
      Slot.holds_ofText pos _⟩
  · intro line other
    rw [Store.slot, Store.slot, h.others line other]

end Transfer

end LineScript
