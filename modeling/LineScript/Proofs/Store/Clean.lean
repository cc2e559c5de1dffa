import LineScript.Proofs.Store.Evolution
import LineScript.Proofs.Text.Utf8
import Mathlib.Data.List.TakeWhile
/-!
# Clean lines

A slot is clean if it holds a text without NUL that leaves room for a closing
zero, and zeros from there to its end. Every operation of a store leaves every
slot clean, whatever it is given: a write cuts its text between characters, a
label is terminated by a space at its end or in place of its last character,
and lines are only moved as a whole. What a clean slot reads as is therefore
all that it holds.

An operation fails only when it is given a line that does not exist, and then
it does nothing.
-/

namespace LineScript

namespace Slot

variable {row : Nat} {slot : Slot} {t : Text}

/-! ## Clean slots -/

/-- The slot holds a text, with room for a closing zero, and zeros to its end. -/
def Clean (row : Nat) (slot : Slot) : Prop :=
  ∃ t : Text, '\x00' ∉ t ∧ Utf8.size t + 1 ≤ row ∧ slot = pad row (Utf8.encode t)

/-- Bytes without a zero are found again in the slot they are put in. -/
theorem content_pad_bytes (row : Nat) {bytes : List UInt8} (h : ∀ b ∈ bytes, b ≠ 0) :
    content (pad row bytes) = bytes := by
  have nonzero : ∀ b ∈ bytes, decide (b ≠ 0) = true := fun b mem => decide_eq_true (h b mem)
  rw [content, pad, List.takeWhile_append_of_pos nonzero, List.takeWhile_replicate,
    if_neg (by decide), List.append_nil]

/-- The content of a slot is what was put there. -/
theorem content_pad (row : Nat) (h : '\x00' ∉ t) :
    content (pad row (Utf8.encode t)) = Utf8.encode t := by
  refine content_pad_bytes row fun b mem zero => h ?_
  rw [zero] at mem
  exact (Utf8.mem_encode_iff (by decide) (by decide)).1 mem

theorem clean_pad (h : '\x00' ∉ t) (room : Utf8.size t + 1 ≤ row) :
    Clean row (pad row (Utf8.encode t)) := ⟨t, h, room, rfl⟩

/-- A blank slot is clean. -/
theorem clean_blank (pos : 1 ≤ row) : Clean row (blank row) :=
  clean_pad (t := []) List.not_mem_nil pos

/-- What a slot keeps of a text that is written to it. -/
def kept (row : Nat) (t : Text) : Text := Utf8.fit (row - 1) (t.takeWhile (· ≠ '\x00'))

theorem nul_notMem_kept (row : Nat) (t : Text) : '\x00' ∉ kept row t := by
  intro mem
  have before := List.all_eq_true.1 List.all_takeWhile _ (Utf8.mem_of_mem_fit mem)
  exact of_decide_eq_true before rfl

/-- **A text that is written leaves a clean slot.** -/
theorem clean_ofText (pos : 1 ≤ row) (t : Text) : Clean row (ofText row t) := by
  refine clean_pad (nul_notMem_kept row t) ?_
  have fits := Utf8.size_fit_le (row - 1) (t.takeWhile (· ≠ '\x00'))
  omega

/-! ## Terminating a label -/

/-- **The last character goes as a whole.** -/
theorem dropLastChar_encode (t : Text) (c : Char) :
    dropLastChar (Utf8.encode (t ++ [c])) = Utf8.encode t := by
  obtain ⟨first, rest, bytes, begins, continues⟩ := Utf8.encodeChar_eq_cons c
  have last : Utf8.encode [c] = first :: rest := by
    rw [Utf8.encode_cons, bytes, Utf8.encode_nil, List.append_nil]
  have trailing : ∀ b ∈ rest.reverse, Utf8.isContinuation b = true :=
    fun b mem => continues b (List.mem_reverse.1 mem)
  have stop : ¬ Utf8.isContinuation first = true := by
    rw [begins]
    decide
  rw [dropLastChar, Utf8.encode_append, last, List.reverse_append, List.reverse_cons,
    List.append_assoc, List.dropWhile_append_of_pos trailing, List.singleton_append,
    List.dropWhile_cons_of_neg stop, List.drop_succ_cons, List.drop_zero, List.reverse_reverse]

/-- The two characters that matter to a label, as bytes. -/
theorem encode_space : Utf8.encode [' '] = [spaceByte] := by decide

theorem encode_label (t : Text) : Utf8.encode ('.' :: t) = labelByte :: Utf8.encode t := by
  rw [Utf8.encode_cons, Utf8.encodeChar_of_lt (by decide)]
  rfl

/-- **A label that ends a line is terminated cleanly**, also where there is no
room for one more byte: the last character of its name is at least as long. -/
theorem clean_terminate {spaces name : Text} (nul : '\x00' ∉ spaces ++ '.' :: name)
    (room : Utf8.size (spaces ++ '.' :: name) + 1 ≤ row) :
    let ended := terminate (Utf8.size (spaces ++ '.' :: name) + 1 < row) (Utf8.encode name)
    Clean row (pad row (Utf8.encode spaces ++ labelByte :: ended.1 ++ ended.2)) := by
  dsimp only
  unfold terminate
  split
  · next more =>
    have longer : Utf8.size (spaces ++ '.' :: name ++ [' ']) + 1 ≤ row := by
      rw [Utf8.size_append]
      exact of_decide_eq_true more
    have unchanged : '\x00' ∉ spaces ++ '.' :: name ++ [' '] := by
      simpa using nul
    rw [← encode_label, ← Utf8.encode_append, ← encode_space, ← Utf8.encode_append]
    exact clean_pad unchanged longer
  · -- the slot is full
    rcases List.eq_nil_or_concat name with rfl | ⟨init, last, rfl⟩
    · have bare : (Utf8.encode []).isEmpty = true := rfl
      rw [if_pos bare, List.append_nil, ← Utf8.encode_nil, ← encode_label, ← Utf8.encode_append]
      exact clean_pad nul room
    · rw [List.concat_eq_append] at nul room ⊢
      have named : ¬ (Utf8.encode (init ++ [last])).isEmpty = true := by
        rw [List.isEmpty_iff, Utf8.encode_eq_nil_iff]
        simp
      have shorter : Utf8.size (spaces ++ '.' :: init ++ [' ']) + 1 ≤ row := by
        have whole : spaces ++ '.' :: (init ++ [last]) = spaces ++ '.' :: init ++ [last] := by simp
        have taken := Utf8.one_le_size_singleton last
        rw [whole, Utf8.size_append] at room
        rw [Utf8.size_append, show Utf8.size [' '] = 1 by decide]
        omega
      have unchanged : '\x00' ∉ spaces ++ '.' :: init ++ [' '] := by
        simp only [List.mem_append, List.mem_cons, not_or] at nul ⊢
        exact ⟨⟨nul.1, nul.2.1, nul.2.2.1⟩, by decide⟩
      rw [if_neg named, dropLastChar_encode, ← encode_label, ← Utf8.encode_append, ← encode_space,
        ← Utf8.encode_append]
      exact clean_pad unchanged shorter

/-- What follows the spaces at the front of a slot. -/
theorem drop_spaces (slot : Slot) :
    slot.content.drop (slot.content.takeWhile (· = spaceByte)).length =
      slot.content.dropWhile (· = spaceByte) := by
  have whole : slot.content.takeWhile (· = spaceByte) ++ slot.content.dropWhile (· = spaceByte) =
      slot.content := List.takeWhile_append_dropWhile
  conv => lhs; arg 2; rw [← whole]
  exact List.drop_left

/-- **Looking past a label leaves a clean slot.** -/
theorem clean_skipLeading (h : Clean row slot) : Clean row (slot.skipLeading row).2 := by
  obtain ⟨t, nul, room, rfl⟩ := h
  have same := clean_pad nul room
  obtain ⟨front, body⟩ := Utf8.span_eq_encode (a := ' ') (b := spaceByte) (by decide) rfl t
  have whole : t.takeWhile (· = ' ') ++ t.dropWhile (· = ' ') = t := List.takeWhile_append_dropWhile
  unfold skipLeading
  dsimp only
  rw [drop_spaces, content_pad row nul, front, body]
  generalize t.takeWhile (· = ' ') = spaces at whole ⊢
  generalize t.dropWhile (· = ' ') = body at whole ⊢
  cases body with
  | nil => exact same
  | cons c name =>
    by_cases mark : c = '.'
    · subst mark
      obtain ⟨ended, after⟩ := Utf8.span_ne_encode (a := ' ') (b := spaceByte) (by decide) rfl name
      rw [encode_label]
      dsimp only
      rw [if_pos rfl, ended, after]
      split
      · next bare =>
        -- the label runs to the end of the text
        have nothing : name.dropWhile (· ≠ ' ') = [] :=
          Utf8.encode_eq_nil_iff.1 (List.isEmpty_iff.1 bare)
        have all : name.takeWhile (· ≠ ' ') = name := by
          have both : name.takeWhile (· ≠ ' ') ++ name.dropWhile (· ≠ ' ') = name :=
            List.takeWhile_append_dropWhile
          rwa [nothing, List.append_nil] at both
        subst whole
        rw [all]
        exact clean_terminate nul room
      · exact same
    · obtain ⟨first, more, bytes, -⟩ := Utf8.encodeChar_eq_cons c
      have other : first ≠ labelByte := by
        intro is
        have mem : first ∈ Utf8.encodeChar c := bytes ▸ List.mem_cons_self
        exact mark ((Utf8.eq_iff_of_mem_encodeChar (by decide) rfl mem).1 is)
      rw [Utf8.encode_cons, bytes, List.cons_append]
      dsimp only
      rw [if_neg other]
      exact same

/-! ## Reading a clean slot -/

/-- **A clean slot holds nothing ill-formed.** -/
theorem Clean.units (h : Clean row slot) : ∀ u ∈ Utf8.units slot.content, u ≠ none := by
  obtain ⟨t, nul, -, rfl⟩ := h
  rw [content_pad row nul, Utf8.units_encode]
  intro u mem
  obtain ⟨c, -, rfl⟩ := List.mem_map.1 mem
  exact Option.some_ne_none c

/-- **A clean slot reads as all that it holds.** -/
theorem Clean.encode_text (h : Clean row slot) : Utf8.encode slot.text = slot.content := by
  obtain ⟨t, nul, -, rfl⟩ := h
  rw [text, content_pad row nul, Utf8.decode_encode]

/-- **What was written reads as what is kept of it.** -/
theorem text_ofText (row : Nat) (t : Text) : (ofText row t).text = kept row t := by
  have content : (ofText row t).content = Utf8.encode (kept row t) :=
    content_pad row (nul_notMem_kept row t)
  rw [text, content, Utf8.decode_encode]

/-- Nothing is written as a blank slot. -/
theorem blank_eq_ofText (row : Nat) : blank row = ofText row [] := rfl

/-- All of which is kept again. -/
theorem kept_kept (row : Nat) (t : Text) : kept row (kept row t) = kept row t := by
  have whole : (kept row t).takeWhile (· ≠ '\x00') = kept row t := by
    rw [List.takeWhile_eq_self_iff]
    exact fun c mem => decide_eq_true fun nul => nul_notMem_kept row t (nul ▸ mem)
  rw [kept, whole]
  exact Utf8.fit_of_size_le (Utf8.size_fit_le _ _)

end Slot

namespace Store

variable {s s' : Store} {row index : Nat}

/-- A write puts a slot of its own in place, -/
theorem getElem?_writeIfPresent_self (inside : index < s.size) (t : Text) :
    (s.writeIfPresent index t).slots[index]? = some (Slot.ofText s.row t) :=
  Array.getElem?_setIfInBounds_self_of_lt inside

/-- and leaves the other lines alone. -/
theorem getElem?_writeIfPresent_of_ne {line : Nat} (t : Text) (other : line ≠ index) :
    (s.writeIfPresent index t).slots[line]? = s.slots[line]? :=
  Array.getElem?_setIfInBounds_ne (Ne.symm other)

/-- A line that is written to reads as what it keeps. -/
theorem line_writeIfPresent (inside : index < s.size) (t : Text) :
    (s.writeIfPresent index t).line index = Slot.kept s.row t := by
  rw [line, getElem?_writeIfPresent_self inside]
  exact Slot.text_ofText s.row t

/-! ## Clean stores -/

/-- Every slot is clean. -/
structure Clean (s : Store) : Prop where
  pos : 1 ≤ s.row
  slots : ∀ slot ∈ s.slots, slot.Clean s.row

/-- A new store is clean. -/
theorem clean_new (lines : Nat) (pos : 1 ≤ row) : (new lines row).Clean where
  pos := pos
  slots slot mem := by
    simp only [new, if_neg (show ¬ row = 0 by omega), Array.mem_replicate] at mem
    rw [mem.2]
    exact Slot.clean_blank pos

namespace Clean

theorem getElem (h : s.Clean) {slot : Slot} (there : s.slots[index]? = some slot) :
    slot.Clean s.row := h.slots slot (Array.mem_of_getElem? there)

/-- A slot may be replaced by a clean one. -/
theorem setIfInBounds (h : s.Clean) {slot : Slot} (clean : slot.Clean s.row) :
    Clean { s with slots := s.slots.setIfInBounds index slot } where
  pos := h.pos
  slots old mem := by
    rcases Array.mem_or_eq_of_mem_setIfInBounds mem with before | rfl
    · exact h.slots old before
    · exact clean

theorem put (h : s.Clean) {slot : Slot} (clean : slot.Clean s.row) (index : Nat) :
    (s.put index slot).2.Clean := by
  unfold Store.put
  split
  · exact h.setIfInBounds clean
  · exact h

theorem clearLine (h : s.Clean) (index : Nat) : (s.clearLine index).2.Clean :=
  h.put (Slot.clean_blank h.pos) index

theorem terminateLabel (h : s.Clean) (index : Nat) : (s.terminateLabel index).Clean := by
  unfold Store.terminateLabel
  split
  · next slot there =>
    dsimp only
    split
    · exact h
    · exact h.setIfInBounds (Slot.clean_skipLeading (h.getElem there))
  · exact h

/-- Lines that are blanked, moved or left alone are clean. -/
theorem mapIdx (h : s.Clean) {f : Nat → Slot → Slot}
    (each : ∀ j slot, s.slots[j]? = some slot → (f j slot).Clean s.row) :
    Clean { s with slots := s.slots.mapIdx f } where
  pos := h.pos
  slots slot mem := by
    obtain ⟨j, small, rfl⟩ := Array.mem_mapIdx.1 mem
    exact each j _ (Array.getElem?_eq_getElem small)

/-- A line after others were moved: taken from elsewhere, or as it was. -/
theorem moved (h : s.Clean) {slot : Slot} (there : s.slots[index]? = some slot) (source : Nat)
    (p : Prop) [Decidable p] :
    Slot.Clean s.row (if p then s.slots[source]?.getD slot else slot) := by
  have old := h.getElem there
  split
  · cases moved : s.slots[source]? with
    | none => exact old
    | some slot' => exact h.getElem moved
  · exact old

theorem copyDown (h : s.Clean) (index last : Nat) : (s.copyDown index last).Clean :=
  h.mapIdx fun j _ there => h.moved there (j - 1) _

theorem copyUp (h : s.Clean) (index last : Nat) : (s.copyUp index last).Clean :=
  h.mapIdx fun j _ there => h.moved there (j + 1) _

/-- **An operation leaves a clean store clean.** -/
theorem apply (h : s.Clean) (c : Change) : (s.apply c).2.Clean := by
  cases c with
  | write index t => exact h.put (Slot.clean_ofText h.pos t) index
  | writeBytes index bytes => exact h.put (Slot.clean_ofText h.pos _) index
  | clearLine index => exact h.clearLine index
  | clear =>
    refine ⟨h.pos, fun slot mem => ?_⟩
    obtain ⟨-, -, rfl⟩ := Array.mem_map.1 mem
    exact Slot.clean_blank h.pos
  | skipLeading index =>
    rw [snd_apply_skipLeading]
    exact h.terminateLabel index
  | insert index last =>
    unfold Store.apply insert
    dsimp only
    split
    · exact (h.copyDown index last).clearLine index
    · exact h
  | remove index last =>
    unfold Store.apply remove
    dsimp only
    split
    · exact (h.copyUp index last).clearLine last
    · exact h

theorem evolves (h : s.Clean) (e : s.Evolves s') : s'.Clean :=
  e.induction (fun _ c clean => clean.apply c) h

end Clean

/-! ## Faults -/

/-- Whether a change is of lines that exist, in a store of so many of them. -/
def Change.InRange (size : Nat) : Change → Prop
  | .write index _ | .writeBytes index _ | .clearLine index | .skipLeading index => index < size
  | .clear => True
  | .insert index last | .remove index last => index ≤ last ∧ last < size

theorem put_fault_iff (s : Store) (index : Nat) (slot : Slot) :
    (s.put index slot).1 = none ↔ index < s.size := by
  unfold put
  split
  · next there => simp [there]
  · next outside => simp [outside]

/-- **A change of lines that exist is made**, and no other. -/
theorem apply_fault_iff (s : Store) (c : Change) : (s.apply c).1 = none ↔ c.InRange s.size := by
  cases c with
  | write index t => exact put_fault_iff s index _
  | writeBytes index bytes => exact put_fault_iff s index _
  | clearLine index => exact put_fault_iff s index _
  | clear => exact iff_of_true rfl trivial
  | skipLeading index =>
    unfold apply skipLeading
    by_cases there : index < s.size
    · simp [there, Change.InRange]
    · simp [there, Change.InRange]
  | insert index last =>
    by_cases range : index ≤ last ∧ last < s.size
    · rw [apply, insert_of_le range.1 range.2]
      exact iff_of_true rfl range
    · rw [apply, insert_of_bad range]
      exact iff_of_false (Option.some_ne_none _) range
  | remove index last =>
    by_cases range : index ≤ last ∧ last < s.size
    · rw [apply, remove_of_le range.1 range.2]
      exact iff_of_true rfl range
    · rw [apply, remove_of_bad range]
      exact iff_of_false (Option.some_ne_none _) range

/-- A put that fails leaves every byte as it was, -/
theorem put_of_fault {slot : Slot} (h : (s.put index slot).1 ≠ none) :
    (s.put index slot).2 = s := by
  rw [put, if_neg (mt (put_fault_iff s index slot).2 h)]

/-- **and so does every change that is not made**: an insertion or a removal
whose range is there has its line to clear. -/
theorem apply_of_fault {c : Change} (h : (s.apply c).1 ≠ none) : (s.apply c).2 = s := by
  have outside := mt (apply_fault_iff s c).2 h
  cases c with
  | write index t => exact put_of_fault h
  | writeBytes index bytes => exact put_of_fault h
  | clearLine index => exact put_of_fault h
  | clear => exact absurd rfl h
  | skipLeading index =>
    rw [snd_apply_skipLeading, terminateLabel_of_le (Nat.not_lt.1 outside)]
  | insert index last => rw [apply, insert_of_bad outside]
  | remove index last => rw [apply, remove_of_bad outside]

/-! ## Every store -/

/-- **Whatever is done to a new store**, its slots are clean: each reads as
all that it holds, none of it ill-formed. An operation fails only on lines
that do not exist, and then changes no byte. -/
theorem clean_of_applyAll {lines : Nat} (pos : 1 ≤ row) (changes : List Change)
    (h : (new lines row).applyAll changes = s) :
    (∀ index slot, s.slots[index]? = some slot → slot.Clean row ∧
      (∀ u ∈ Utf8.units slot.content, u ≠ none) ∧
      ∃ t, s.read index = .ok t ∧ Utf8.encode t = slot.content) ∧
    ∀ c : Change, ((s.apply c).1 = none ↔ c.InRange lines) ∧
      ((s.apply c).1 ≠ none → (s.apply c).2 = s) := by
  have evolves : (new lines row).Evolves s := ⟨changes, h⟩
  have clean := (clean_new lines pos).evolves evolves
  have width : s.row = row := evolves.shape.row
  have size : s.size = lines := by
    rw [evolves.shape.size]
    simp only [new, Store.size, if_neg (show ¬ row = 0 by omega), Array.size_replicate]
  refine ⟨fun index slot there => ?_, fun c => ⟨?_, apply_of_fault⟩⟩
  · have each := clean.getElem there
    refine ⟨width ▸ each, each.units, slot.text, ?_, each.encode_text⟩
    rw [read, Store.slot, there]
    rfl
  · rw [apply_fault_iff, size]

/-- It holds after a label was terminated in place of its last character. -/
theorem clean_of_applyAll_label :
    ∃ s slot t, (new 2 8).applyAll [.write 1 ".abcdé".toList, .skipLeading 1] = s ∧
      s.slots[1]? = some slot ∧ slot.content = Utf8.encode ".abcd ".toList ∧ slot.Clean 8 ∧
      s.read 1 = .ok t ∧ Utf8.encode t = slot.content ∧
      (s.apply (.insert 1 2)).1 ≠ none ∧ (s.apply (.insert 1 2)).2 = s := by
  obtain ⟨s, made⟩ : ∃ s, (new 2 8).applyAll [.write 1 ".abcdé".toList, .skipLeading 1] = s :=
    ⟨_, rfl⟩
  obtain ⟨slots, faults⟩ := clean_of_applyAll (by decide) _ made
  have held : s.slots[1]?.map Slot.content = some (Utf8.encode ".abcd ".toList) := by
    rw [← made]
    decide +kernel
  obtain ⟨slot, there, content⟩ := Option.map_eq_some_iff.1 held
  obtain ⟨clean, -, t, read, whole⟩ := slots 1 slot there
  obtain ⟨exactly, unchanged⟩ := faults (.insert 1 2)
  have fails : (s.apply (.insert 1 2)).1 ≠ none := fun none => by
    obtain ⟨-, outside⟩ := exactly.1 none
    omega
  exact ⟨s, slot, t, made, there, content, clean, read, whole, fails, unchanged fails⟩

end Store

end LineScript
