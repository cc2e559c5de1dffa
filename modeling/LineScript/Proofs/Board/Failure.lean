import LineScript.Proofs.Board.Image
/-!
# Failed writes

A write to a chip can fail before it begins: there is no such chip, no such
address, or no transfer left. Then it leaves everything as it was. It can also
fail at its end, when the image cannot be saved. Then the bytes are on the chip
already, and to whoever reads them the write might as well have succeeded.
Which of the two it was is told by the fault (`reading_after_failed_write`).

The file decides only whether a write is said to fail. What the chips hold and
how many transfers are left does not depend on it (`uses_inFile`).
-/

namespace LineScript

/-- What is put on a chip is read from there. -/
theorem Chip.bytesAt_patch {c : Chip} {address : Nat} {bytes : List UInt8}
    (inside : address + bytes.length ≤ c.size) :
    (c.patch address bytes).bytesAt address bytes.length = bytes := by
  have room : address + bytes.length ≤ (c.patch address bytes).size := by
    rw [size_patch inside]
    exact inside
  refine List.ext_getElem? fun i => ?_
  rcases Nat.lt_or_ge i bytes.length with less | more
  · rw [getElem?_bytesAt room less, getElem?_patch inside, if_pos (by omega),
      Nat.add_sub_cancel_left]
  · rw [List.getElem?_eq_none more, List.getElem?_eq_none]
    rw [length_bytesAt room]
    exact more

namespace Eeprom

variable {e e' : Eeprom} {chip address count : Nat} {bytes : List UInt8} {fault : Fault}
variable {f g : Option ImageFile}

/-- The bytes that a read gives, if it succeeds. -/
def reading (e : Eeprom) (chip address count : Nat) : Option (List UInt8) :=
  (e.read chip address count).toOption.map Prod.fst

/-- The same chips, kept in another file or in none. -/
def inFile (e : Eeprom) (file : Option ImageFile) : Eeprom := { e with file }

/-! ## The file does not show -/

theorem access_inFile (e : Eeprom) (f : Option ImageFile) (chip address count : Nat) :
    (e.inFile f).access chip address count =
      (e.access chip address count).map fun e => e.inFile f := by
  obtain ⟨chips, file, budget⟩ := e
  unfold access inFile
  dsimp only
  split
  · rfl
  split
  · rfl
  · rcases budget with _ | _ | left <;> rfl

/-- Chips read the same wherever they are kept. -/
theorem read_inFile (e : Eeprom) (f : Option ImageFile) (chip address count : Nat) :
    (e.inFile f).read chip address count =
      (e.read chip address count).map fun (bytes, e) => (bytes, e.inFile f) := by
  unfold Eeprom.read
  rw [access_inFile]
  cases e.access chip address count <;> rfl

theorem reading_inFile (e : Eeprom) (f : Option ImageFile) (chip address count : Nat) :
    (e.inFile f).reading chip address count = e.reading chip address count := by
  unfold reading
  rw [read_inFile]
  cases e.read chip address count <;> rfl

/-- Saving changes the file at most. -/
theorem exists_save_eq (e : Eeprom) : ∃ g, e.save.2 = e.inFile g := by
  unfold save
  split
  · exact ⟨e.file, rfl⟩
  · split
    · next g _ => exact ⟨some g, rfl⟩
    · exact ⟨e.file, rfl⟩

/-- **Every use does the same to the chips**, whatever file they are kept in. -/
theorem use_inFile (e : Eeprom) (f : Option ImageFile) (u : Use) :
    ∃ g, (e.inFile f).use u = (e.use u).inFile g := by
  cases u with
  | read chip address count =>
    unfold use
    dsimp only
    rw [read_inFile]
    cases e.read chip address count with
    | ok result => exact ⟨f, rfl⟩
    | error fault => exact ⟨f, rfl⟩
  | write chip address bytes =>
    unfold use
    dsimp only
    unfold write
    rw [access_inFile]
    cases e.access chip address bytes.length with
    | error fault => exact ⟨f, rfl⟩
    | ok begun =>
      obtain ⟨g, saved⟩ := exists_save_eq
        { begun.inFile f with chips := begun.chips.modify chip (·.patch address bytes) }
      obtain ⟨h, saved'⟩ := exists_save_eq
        { begun with chips := begun.chips.modify chip (·.patch address bytes) }
      refine ⟨g, saved.trans ?_⟩
      dsimp only
      rw [saved']
      rfl
  | limit transfers => exact ⟨f, rfl⟩

/-- So do several. -/
theorem uses_inFile (e : Eeprom) (f : Option ImageFile) (us : List Use) :
    ∃ g, (e.inFile f).uses us = (e.uses us).inFile g := by
  induction us generalizing e f with
  | nil => exact ⟨f, rfl⟩
  | cons u us ih =>
    obtain ⟨g, next⟩ := e.use_inFile f u
    obtain ⟨h, last⟩ := ih (e.use u) g
    refine ⟨h, ?_⟩
    rw [uses, List.foldl_cons, next]
    exact last

/-! ## Failures -/

/-- What keeps a transfer from beginning is not the image. -/
theorem access_fault (refused : e.access chip address count = .error fault) :
    fault ≠ .imageNotSaved := by
  unfold access at refused
  split at refused
  · cases refused
    decide
  split at refused
  · cases refused
    decide
  · split at refused <;> cases refused
    decide

/-- **How a write fails**: it does not begin, and then leaves everything as it
was, or it is done and its image is not saved. -/
theorem write_fault (failed : (e.write chip address bytes).1 = some fault) :
    (fault ≠ .imageNotSaved ∧ (e.write chip address bytes).2 = e) ∨
      (fault = .imageNotSaved ∧ e.file = some .blocked ∧
        ((e.inFile none).write chip address bytes).1 = none ∧
        (e.write chip address bytes).2 =
          ((e.inFile none).write chip address bytes).2.inFile e.file) := by
  unfold write at failed ⊢
  rw [access_inFile]
  cases begun : e.access chip address bytes.length with
  | error fault =>
    rw [begun] at failed
    cases failed
    exact .inl ⟨access_fault begun, rfl⟩
  | ok e' =>
    rw [begun] at failed
    have kept := (access_kept begun).2
    obtain ⟨chips, file, budget⟩ := e'
    obtain rfl : file = e.file := kept
    refine .inr ?_
    cases there : e.file with
    | none =>
      rw [there] at failed
      cases failed
    | some g =>
      rw [there] at failed
      cases g with
      | absent | bytes => cases failed
      | blocked =>
        cases failed
        exact ⟨rfl, rfl, rfl, rfl⟩

/-- **What a failed write leaves to be read**, whatever is done in between. If
it was refused, all that would have been read without it. If only the image was
not saved, all that would be read if the write had succeeded. -/
theorem reading_after_failed_write (failed : (e.write chip address bytes).1 = some fault)
    (us : List Use) (chip' address' count : Nat) :
    (fault ≠ .imageNotSaved →
      ((e.write chip address bytes).2.uses us).reading chip' address' count =
        (e.uses us).reading chip' address' count) ∧
    (fault = .imageNotSaved →
      e.file = some .blocked ∧ ((e.inFile none).write chip address bytes).1 = none ∧
      ((e.write chip address bytes).2.uses us).reading chip' address' count =
        (((e.inFile none).write chip address bytes).2.uses us).reading chip' address' count) := by
  rcases write_fault failed with ⟨other, same⟩ | ⟨unsaved, blocked, done, same⟩
  · refine ⟨fun _ => ?_, fun unsaved => absurd unsaved other⟩
    rw [same]
  · refine ⟨fun other => absurd unsaved other, fun _ => ⟨blocked, done, ?_⟩⟩
    obtain ⟨g, last⟩ := uses_inFile ((e.inFile none).write chip address bytes).2 e.file us
    rw [same, last, reading_inFile]

/-- With no end of transfers a read gives what is on the chip. -/
theorem reading_eq (unlimited : e.budget = none) (small : chip < chipCount)
    (inside : address + count ≤ chipSize) {c : Chip} (there : e.chips[chip]? = some c) :
    e.reading chip address count = some (c.bytesAt address count) := by
  have serves : e.Serves 1 := fun left limited => nomatch unlimited.symm.trans limited
  obtain ⟨e', read, -, -⟩ := read_eq address count serves small inside there
  rw [reading, read]
  rfl

/-- **A write whose image is not saved is read back** all the same. -/
theorem reading_unsaved_write (sound : e.Sound) (unlimited : e.budget = none)
    (blocked : e.file = some .blocked) (small : chip < chipCount)
    (inside : address + bytes.length ≤ chipSize) :
    (e.write chip address bytes).1 = some .imageNotSaved ∧
      (e.write chip address bytes).2.reading chip address bytes.length = some bytes := by
  obtain ⟨c, there, size⟩ := sound.getElem? small
  have begins : e.access chip address bytes.length = .ok e := by
    unfold access
    rw [if_neg (by omega), if_neg (by omega), unlimited]
  have written : e.write chip address bytes =
      (some .imageNotSaved, { e with chips := e.chips.modify chip (·.patch address bytes) }) := by
    unfold write
    rw [begins]
    dsimp only
    unfold save
    simp only [blocked, ImageFile.write?]
  have patched : (e.chips.modify chip (·.patch address bytes))[chip]? =
      some (c.patch address bytes) := by
    rw [Array.getElem?_modify, if_pos rfl, there]
    rfl
  have read := reading_eq
    (e := { e with chips := e.chips.modify chip (·.patch address bytes) }) unlimited small inside
    patched
  rw [Chip.bytesAt_patch (by omega)] at read
  rw [written]
  exact ⟨rfl, read⟩

/-- Where the image file cannot be written, a chip reads otherwise after a
write that has failed. -/
theorem failed_write_shows :
    (openFile .blocked).reading 1 1 1 = some [0] ∧
    ((openFile .blocked).write 1 1 [9]).1 = some .imageNotSaved ∧
    ((openFile .blocked).write 1 1 [9]).2.reading 1 1 1 = some [9] := by
  have inside : 1 + [(9 : UInt8)].length ≤ chipSize := by decide
  have zero : Chip.blank.bytesAt 1 1 = [0] := by
    rw [Chip.bytesAt, Chip.blank, Array.extract_replicate, Array.toList_replicate]
    rfl
  refine ⟨?_, reading_unsaved_write (sound_openFile .blocked) rfl rfl (by decide) inside⟩
  rw [← zero]
  exact reading_eq rfl (by decide) inside rfl

/-- A write past the last address leaves the bytes before it, also for the
reads that a limit still allows. One that could not be saved is read under the
same limit as one that there was no file for. -/
theorem reading_after_failed_write_refused :
    ((openFile .absent).write 7 32767 [1, 2]).1 = some .badAddress ∧
    (((openFile .absent).write 7 32767 [1, 2]).2.uses [.limit 1]).reading 7 32767 1 =
      ((openFile .absent).uses [.limit 1]).reading 7 32767 1 ∧
    ((openFile .blocked).write 1 1 [9]).1 = some .imageNotSaved ∧
    (((openFile .blocked).write 1 1 [9]).2.uses [.limit 1]).reading 1 1 1 =
      ((((openFile .blocked).inFile none).write 1 1 [9]).2.uses [.limit 1]).reading 1 1 1 := by
  have refused : ((openFile .absent).write 7 32767 [1, 2]).1 = some .badAddress := rfl
  have unsaved : ((openFile .blocked).write 1 1 [9]).1 = some .imageNotSaved := rfl
  obtain ⟨-, -, same⟩ := (reading_after_failed_write unsaved [.limit 1] 1 1 1).2 rfl
  exact ⟨refused, (reading_after_failed_write refused [.limit 1] 7 32767 1).1 (by decide), unsaved,
    same⟩

end Eeprom

end LineScript
