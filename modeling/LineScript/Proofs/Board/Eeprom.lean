import LineScript.Board.Eeprom
/-!
# Transfers of bytes

The chips of an EEPROM are told by their bytes (`Eeprom.byte?`). A write
changes the bytes it addresses and no others (`Eeprom.write_eq`), and a read
gives them and changes none (`Eeprom.read_eq`). Both succeed as long as a
transfer is left and the image, if there is one, can be saved.
-/

namespace LineScript

namespace Chip

variable {chip : Chip} {address count i : Nat} {bytes : List UInt8}

/-! ## One chip -/

theorem size_patch (inside : address + bytes.length ≤ chip.size) :
    (chip.patch address bytes).size = chip.size := by
  simp only [patch, Array.size_append, Array.size_extract, List.size_toArray]
  omega

/-- **A patch is found where it was put**, and the other bytes are as before. -/
theorem getElem?_patch (inside : address + bytes.length ≤ chip.size) (i : Nat) :
    (chip.patch address bytes)[i]? =
      if address ≤ i ∧ i < address + bytes.length then bytes[i - address]? else chip[i]? := by
  have front : (chip.extract 0 address).size = address := by
    rw [Array.size_extract]
    omega
  have patched : (chip.extract 0 address ++ bytes.toArray).size = address + bytes.length := by
    rw [Array.size_append, front, List.size_toArray]
  rw [patch]
  rcases Nat.lt_or_ge i address with before | reached
  · rw [if_neg (by omega), Array.append_assoc, Array.getElem?_append_left (by omega),
      Array.getElem?_extract, if_pos (by omega), Nat.zero_add]
  · rcases Nat.lt_or_ge i (address + bytes.length) with within | behind
    · rw [if_pos ⟨reached, within⟩, Array.getElem?_append_left (by omega),
        Array.getElem?_append_right (by omega), front, List.getElem?_toArray]
    · have place : address + bytes.length + (i - (address + bytes.length)) = i := by omega
      rw [if_neg (by omega), Array.getElem?_append_right (by omega), patched,
        Array.getElem?_extract, place]
      split
      · rfl
      · rw [Array.getElem?_eq_none (by omega)]

theorem length_bytesAt (inside : address + count ≤ chip.size) :
    (chip.bytesAt address count).length = count := by
  rw [bytesAt, Array.length_toList, Array.size_extract]
  omega

theorem getElem?_bytesAt (inside : address + count ≤ chip.size) (less : i < count) :
    (chip.bytesAt address count)[i]? = chip[address + i]? := by
  rw [bytesAt, Array.getElem?_toList, Array.getElem?_extract, if_pos (by omega)]

end Chip

namespace Image

theorem length_split (count : Nat) (bytes : List UInt8) : (split count bytes).length = count := by
  induction count generalizing bytes with
  | zero => rfl
  | succ count ih => rw [split, List.length_cons, ih]

/-- What is long enough is split into chips of their size. -/
theorem size_of_mem_split {count : Nat} {bytes : List UInt8}
    (long : count * chipSize ≤ bytes.length) {c : Chip} (mem : c ∈ split count bytes) :
    c.size = chipSize := by
  induction count generalizing bytes with
  | zero => cases mem
  | succ count ih =>
    rw [Nat.succ_mul] at long
    rcases List.mem_cons.1 mem with rfl | later
    · rw [List.size_toArray, List.length_take]
      omega
    · refine ih ?_ later
      rw [List.length_drop]
      omega

end Image

namespace Eeprom

variable {e : Eeprom} {chip address count n : Nat} {bytes : List UInt8}

/-! ## All chips -/

/-- There are as many chips as there should be, each of the size of a chip. -/
structure Sound (e : Eeprom) : Prop where
  count : e.chips.size = chipCount
  size : ∀ (chip : Nat) (c : Chip), e.chips[chip]? = some c → c.size = chipSize

/-- A byte of a chip, if there is such a byte. -/
def byte? (e : Eeprom) (chip address : Nat) : Option UInt8 := e.chips[chip]?.bind (·[address]?)

/-- At least so many transfers are left. -/
def Serves (e : Eeprom) (n : Nat) : Prop := ∀ left, e.budget = some left → n ≤ left

/-- The image can be saved, or there is none. -/
def Saves (e : Eeprom) : Prop := e.file ≠ some .blocked

theorem sound_blank : blank.Sound where
  count := Array.size_replicate
  size chip c there := by
    rw [blank, Array.getElem?_replicate] at there
    split at there
    · cases there
      exact Array.size_replicate
    · cases there

/-- **Chips that are opened are sound**, whatever is found in the file. -/
theorem sound_openFile (f : ImageFile) : (openFile f).Sound := by
  cases decoded : f.read?.bind Image.decode? with
  | none =>
    have same : (openFile f).chips = blank.chips := by
      rw [openFile, decoded]
      rfl
    exact ⟨same ▸ sound_blank.count, same ▸ sound_blank.size⟩
  | some chips =>
    have opened : (openFile f).chips = chips := by
      rw [openFile, decoded]
      rfl
    obtain ⟨bytes, -, made⟩ := Option.bind_eq_some_iff.1 decoded
    unfold Image.decode? at made
    dsimp only at made
    split at made
    · cases made
    · next whole =>
      split at made
      · cases made
        have long : chipCount * chipSize ≤ (bytes.take (chipCount * chipSize)).length := by
          rw [List.length_take]
          omega
        refine ⟨?_, fun chip c there => ?_⟩
        · rw [opened, List.size_toArray, Image.length_split]
        · rw [opened] at there
          refine Image.size_of_mem_split long ?_
          exact List.mem_toArray.1 (Array.mem_of_getElem? there)
      · cases made

theorem Sound.getElem? (h : e.Sound) (small : chip < chipCount) :
    ∃ c, e.chips[chip]? = some c ∧ c.size = chipSize := by
  have inside : chip < e.chips.size := by
    rw [h.count]
    exact small
  exact ⟨e.chips[chip], Array.getElem?_eq_getElem inside,
    h.size chip _ (Array.getElem?_eq_getElem inside)⟩

/-- Bytes inside a chip may be replaced. -/
theorem Sound.patch (h : e.Sound) (chip : Nat) (inside : address + bytes.length ≤ chipSize) :
    Sound { e with chips := e.chips.modify chip (·.patch address bytes) } where
  count := by
    rw [Array.size_modify]
    exact h.count
  size k c there := by
    rw [Array.getElem?_modify] at there
    split at there
    · obtain ⟨old, before, rfl⟩ := Option.map_eq_some_iff.1 there
      have size := h.size k old before
      rw [Chip.size_patch (by omega), size]
    · exact h.size k c there

/-! ## Transfers -/

/-- A transfer only begins inside a chip, and changes none by that. -/
theorem access_ok {e' : Eeprom} (begins : e.access chip address count = .ok e') :
    address + count ≤ chipSize ∧ e'.chips = e.chips := by
  unfold access at begins
  split at begins
  · cases begins
  · split at begins
    · cases begins
    · next inside =>
      refine ⟨Nat.le_of_not_lt inside, ?_⟩
      split at begins <;> cases begins <;> rfl

theorem chips_save (e : Eeprom) : e.save.2.chips = e.chips := by
  unfold save
  split
  · rfl
  · split <;> rfl

/-- **A write leaves the chips sound**, also one that fails. -/
theorem Sound.write (h : e.Sound) (chip address : Nat) (bytes : List UInt8) :
    (e.write chip address bytes).2.Sound := by
  unfold Eeprom.write
  split
  · exact h
  · next e' begins =>
    obtain ⟨inside, same⟩ := access_ok begins
    have sound : e'.Sound := ⟨same ▸ h.count, same ▸ h.size⟩
    have patched := sound.patch chip inside
    exact ⟨(chips_save _).symm ▸ patched.count, (chips_save _).symm ▸ patched.size⟩

/-- A read changes no chip. -/
theorem chips_read {e' : Eeprom} (read : e.read chip address count = .ok (bytes, e')) :
    e'.chips = e.chips := by
  unfold Eeprom.read at read
  cases begins : e.access chip address count with
  | error fault =>
    rw [begins] at read
    cases read
  | ok begun =>
    rw [begins] at read
    cases read
    exact (access_ok begins).2

/-- **A transfer begins** if the chip and the address exist and one is left. -/
theorem access_eq (small : chip < chipCount) (inside : address + count ≤ chipSize)
    (serves : e.Serves (n + 1)) :
    ∃ budget, e.access chip address count = .ok { e with budget } ∧
      Serves { e with budget } n := by
  rw [access, if_neg (by omega), if_neg (by omega)]
  obtain ⟨chips, file, budget⟩ := e
  cases budget with
  | none => exact ⟨none, rfl, nofun⟩
  | some left =>
    have enough := serves left rfl
    obtain ⟨left, rfl⟩ := Nat.exists_eq_add_of_le' (show 1 ≤ left by omega)
    refine ⟨some left, rfl, ?_⟩
    rintro _ ⟨⟩
    omega

/-- An image that can be saved is saved, and can be again. -/
theorem save_eq (saves : e.Saves) : ∃ file, e.save = (none, { e with file }) ∧
    Saves { e with file } := by
  obtain ⟨chips, file, budget⟩ := e
  match file with
  | none => exact ⟨none, rfl, nofun⟩
  | some .absent | some (.bytes _) => exact ⟨_, rfl, nofun⟩
  | some .blocked => exact absurd rfl saves

/-- **A write changes the bytes it addresses** and no others. -/
theorem write_eq (address : Nat) (bytes : List UInt8) (sound : e.Sound)
    (serves : e.Serves (n + 1)) (saves : e.Saves) (small : chip < chipCount)
    (inside : address + bytes.length ≤ chipSize) :
    ∃ e', e.write chip address bytes = (none, e') ∧ e'.Sound ∧ e'.Serves n ∧ e'.Saves ∧
      ∀ k a, e'.byte? k a =
        if k = chip ∧ address ≤ a ∧ a < address + bytes.length then bytes[a - address]?
        else e.byte? k a := by
  obtain ⟨budget, begins, left⟩ := access_eq small inside serves
  obtain ⟨file, saved, again⟩ :=
    save_eq (e := { e with budget, chips := e.chips.modify chip (·.patch address bytes) }) saves
  have patched := sound.patch chip inside
  refine ⟨{ chips := e.chips.modify chip (·.patch address bytes), file, budget }, ?_,
    ⟨patched.count, patched.size⟩, left, again, ?_⟩
  · rw [write, begins]
    exact saved
  · intro k a
    simp only [byte?, Array.getElem?_modify]
    by_cases same : chip = k
    · subst same
      obtain ⟨c, there, size⟩ := sound.getElem? small
      simp only [there, if_pos, Option.map_some, Option.bind_some, true_and]
      exact Chip.getElem?_patch (by omega) a
    · rw [if_neg same, if_neg (fun h => same h.1.symm)]

/-- **A read gives the bytes it addresses** and changes none. -/
theorem read_eq (address count : Nat) (serves : e.Serves (n + 1)) (small : chip < chipCount)
    (inside : address + count ≤ chipSize) {c : Chip} (there : e.chips[chip]? = some c) :
    ∃ e', e.read chip address count = .ok (c.bytesAt address count, e') ∧
      e'.chips = e.chips ∧ e'.Serves n := by
  obtain ⟨budget, begins, left⟩ := access_eq small inside serves
  refine ⟨{ e with budget }, ?_, rfl, left⟩
  have found : peek { e with budget } chip address count = c.bytesAt address count := by
    rw [peek, if_pos inside, there]
    rfl
  rw [read, begins]
  exact congrArg (fun bytes => Except.ok (bytes, { e with budget })) found

end Eeprom

end LineScript
