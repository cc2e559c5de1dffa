import LineScript.Proofs.Store.Clean
import LineScript.Proofs.Text.Lossy
/-!
# What a write leaves

A line that is written to keeps as much of the text as there is room for
before its first NUL, and no part of a character (`Slot.IsKept`). Bytes are
written as the text they are read as, up to their first zero. No other line
changes (`write_reads_back`).

The bytes of a clean slot are those of its own text, so a line can be copied
to another byte for byte (`Slot.ofText_textOfBytes`).
-/

namespace LineScript

namespace Slot

variable {row : Nat} {slot : Slot} {t part : Text}

/-! ## What is kept of a text -/

/-- The longest leading part of a text that stands before its first NUL and
leaves room for a closing zero. -/
structure IsKept (row : Nat) (t part : Text) : Prop where
  leads : part <+: t
  nul : '\x00' ∉ part
  room : Utf8.size part + 1 ≤ row
  longest : ∀ other, other <+: t → '\x00' ∉ other → Utf8.size other + 1 ≤ row → other <+: part

/-- **A slot keeps as much as it can.** -/
theorem isKept_kept (pos : 1 ≤ row) (t : Text) : IsKept row t (kept row t) := by
  obtain ⟨leads, fits, longest⟩ := Utf8.longestFit_fit (row - 1) (t.takeWhile (· ≠ '\x00'))
  refine ⟨leads.trans (List.takeWhile_prefix _), nul_notMem_kept row t, ?_, ?_⟩
  · rw [kept]
    omega
  · intro other within nul room
    refine longest other ?_ (by omega)
    obtain ⟨rest, rfl⟩ := within
    have before : ∀ c ∈ other, decide (c ≠ '\x00') = true := by
      intro c mem
      simp only [decide_eq_true_eq]
      intro same
      exact nul (same ▸ mem)
    rw [List.takeWhile_append_of_pos before]
    exact List.prefix_append other _

/-- Nothing else is kept. -/
theorem IsKept.eq_kept (h : IsKept row t part) : part = kept row t := by
  have other := isKept_kept (show 1 ≤ row by have := h.room; omega) t
  have within := other.longest part h.leads h.nul h.room
  have back := h.longest (kept row t) other.leads other.nul other.room
  exact within.eq_of_length_le back.length_le

/-- A slot holds a text if it reads as what is kept of it, with zeros behind. -/
structure Holds (row : Nat) (t : Text) (slot : Slot) : Prop where
  kept : IsKept row t slot.text
  zeros : slot = pad row (Utf8.encode slot.text)

/-- **What was written is held.** -/
theorem holds_ofText (pos : 1 ≤ row) (t : Text) : Holds row t (ofText row t) := by
  constructor
  · rw [text_ofText]
    exact isKept_kept pos t
  · rw [text_ofText]
    rfl

/-! ## Slots and their bytes -/

theorem Clean.length (h : Clean row slot) : slot.length = row := by
  obtain ⟨t, -, room, rfl⟩ := h
  rw [Utf8.size] at room
  rw [pad, List.length_append, List.length_replicate]
  omega

/-- **A clean slot is the slot of its own text.** -/
theorem ofText_textOfBytes (h : Clean row slot) : ofText row (textOfBytes slot) = slot := by
  obtain ⟨t, nul, room, rfl⟩ := h
  have content : (pad row (Utf8.encode t)).takeWhile (· ≠ 0) = Utf8.encode t := content_pad row nul
  have whole : t.takeWhile (· ≠ '\x00') = t :=
    List.takeWhile_eq_self_iff.2 fun c mem => decide_eq_true fun same => nul (same ▸ mem)
  rw [textOfBytes, content, Utf8.lossy_encode, ofText, whole, Utf8.fit_of_size_le (by omega)]

end Slot

namespace Store

variable {s : Store} {index line : Nat} {slot : Slot}

/-! ## Writing to a line -/

/-- A line that exists has a slot. -/
theorem exists_slot (inside : line < s.size) : ∃ slot, s.slots[line]? = some slot :=
  ⟨s.slots[line], Array.getElem?_eq_getElem inside⟩

theorem slot_eq_ok_iff : s.slot line = .ok slot ↔ s.slots[line]? = some slot := by
  unfold Store.slot
  cases s.slots[line]? <;> simp

/-- What a line reads as. -/
theorem line_of_slot (there : s.slot line = .ok slot) : s.line line = slot.text := by
  rw [Store.line, slot_eq_ok_iff.1 there]
  rfl

/-- The line that was written to, -/
theorem slot_writeIfPresent_self (inside : index < s.size) (t : Text) :
    (s.writeIfPresent index t).slot index = .ok (Slot.ofText s.row t) :=
  slot_eq_ok_iff.2 (getElem?_writeIfPresent_self inside t)

/-- and the others. -/
theorem slot_writeIfPresent_of_ne (t : Text) (other : line ≠ index) :
    (s.writeIfPresent index t).slot line = s.slot line := by
  rw [Store.slot, getElem?_writeIfPresent_of_ne t other, Store.slot]

/-- What a line that is written to reads as. -/
theorem read_writeIfPresent (inside : index < s.size) (t : Text) :
    (s.writeIfPresent index t).read index = .ok (Slot.kept s.row t) := by
  rw [read, slot_writeIfPresent_self inside, ← Slot.text_ofText]
  rfl

/-- A write changes one line. It then reads as the text that was written, or
that the bytes stand for, as far as there is room; and where a whole line was
written it is, byte for byte, the same. -/
theorem write_reads_back (pos : 1 ≤ s.row) (inside : index < s.size) :
    (∀ t, ∃ s' part, s.write index t = (none, s') ∧
      s'.read index = .ok part ∧ Slot.IsKept s.row t part ∧
      ∀ line, line ≠ index → s'.slot line = s.slot line) ∧
    (∀ bytes, ∃ s' t part, s.writeBytes index bytes = (none, s') ∧
      Utf8.Lossy (bytes.takeWhile (· ≠ 0)) t ∧
      s'.read index = .ok part ∧ Slot.IsKept s.row t part ∧
      ∀ line, line ≠ index → s'.slot line = s.slot line) ∧
    (∀ lines row, (new lines row).Evolves s → ∀ source slot, s.slot source = .ok slot →
      ∃ s', s.writeBytes index slot = (none, s') ∧ s'.slot index = .ok slot ∧
        ∀ line, line ≠ index → s'.slot line = s.slot line) := by
  have others : ∀ t line, line ≠ index → (s.writeIfPresent index t).slot line = s.slot line := by
    intro t line other
    exact slot_writeIfPresent_of_ne t other
  refine ⟨?_, ?_, ?_⟩
  · intro t
    exact ⟨_, _, s.write_of_lt t inside, read_writeIfPresent inside t, Slot.isKept_kept pos t,
      others t⟩
  · intro bytes
    have read := Utf8.lossy_iff.2 (rfl : Utf8.lossy (bytes.takeWhile (· ≠ 0)) = _)
    exact ⟨_, _, _, s.write_of_lt _ inside, read, read_writeIfPresent inside _,
      Slot.isKept_kept pos _, others _⟩
  · intro lines row evolves source slot there
    have width : s.row = row := evolves.shape.row
    have clean : s.Clean := (clean_new lines (by omega)).evolves evolves
    have same := Slot.ofText_textOfBytes (clean.getElem (slot_eq_ok_iff.1 there))
    refine ⟨_, s.write_of_lt _ inside, ?_, others _⟩
    rw [slot_writeIfPresent_self inside, same]

/-- Bytes with an ill-formed part are written as a text that no longer fits:
the character that has no room goes as a whole. -/
theorem write_reads_back_lossy : ∃ s s' t part,
    (new 4 8).Evolves s ∧ 1 ≤ s.row ∧ 2 < s.size ∧
    s.writeBytes 2 [0x61, 0x62, 0xE2, 0x82, 0xC3, 0xA9, 0xC3, 0xA9, 0, 0x63] = (none, s') ∧
    Utf8.Lossy [0x61, 0x62, 0xE2, 0x82, 0xC3, 0xA9, 0xC3, 0xA9] t ∧
    s'.read 2 = .ok part ∧ Slot.IsKept s.row t part ∧
    t = "ab\uFFFDéé".toList ∧ part = "ab\uFFFDé".toList := by
  have pos : 1 ≤ (new 4 8).row := by decide
  have inside : 2 < (new 4 8).size := by decide
  obtain ⟨-, write, -⟩ := write_reads_back pos inside
  obtain ⟨s', t, part, made, lossy, read, kept, -⟩ :=
    write [0x61, 0x62, 0xE2, 0x82, 0xC3, 0xA9, 0xC3, 0xA9, 0, 0x63]
  have whole : t = "ab\uFFFDéé".toList := by
    rw [← Utf8.lossy_iff.1 lossy]
    decide +kernel
  refine ⟨new 4 8, s', t, part, .refl _, pos, inside, made, lossy, read, kept, whole, ?_⟩
  rw [kept.eq_kept, whole]
  decide +kernel

end Store

end LineScript
