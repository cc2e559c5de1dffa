import LineScript.Proofs.Board.Crc32
/-!
# Damaged images

The bytes of an image leave the register of its checksum in one and the same
state, whatever the chips hold. Bytes that differ from an image in no more than
four places in a row leave it in another (`Image.Burst.foldl_ne`), whether they
belong to the chips, to the stored checksum or to both. So such a file is no
image, and neither is one of another length: it is opened as blank chips
(`Eeprom.damage_ignored`).
-/

namespace LineScript

namespace Image

variable {whole damaged : List UInt8} {chips : Array Chip}

/-- Bytes of which at least one is changed, and none but four in a row. -/
structure Burst (whole damaged : List UInt8) : Prop where
  length : damaged.length = whole.length
  changed : damaged ≠ whole
  within : ∃ start, ∀ i, i < start ∨ start + 4 ≤ i → damaged[i]? = whole[i]?

/-! ## Bursts -/

/-- The four places may be taken inside the bytes: places past the end are given
up for others before the first. -/
theorem Burst.inside (h : Burst whole damaged) (long : 4 ≤ whole.length) :
    ∃ place, place + 4 ≤ whole.length ∧
      ∀ i, i < place ∨ place + 4 ≤ i → damaged[i]? = whole[i]? := by
  obtain ⟨start, same⟩ := h.within
  have length := h.length
  rcases Nat.lt_or_ge whole.length (start + 4) with past | within
  · refine ⟨whole.length - 4, by omega, ?_⟩
    intro i outside
    rcases outside with before | behind
    · exact same i (by omega)
    · rw [List.getElem?_eq_none (by omega), List.getElem?_eq_none (by omega)]
  · exact ⟨start, within, same⟩

/-- What a burst changes, between what it leaves as it was. -/
theorem Burst.parts (h : Burst whole damaged) (long : 4 ≤ whole.length) :
    ∃ front four four' back, whole = front ++ four ++ back ∧ damaged = front ++ four' ++ back ∧
      four.length = 4 ∧ four'.length = 4 ∧ four' ≠ four := by
  obtain ⟨place, inside, outside⟩ := h.inside long
  have split (l : List UInt8) : l = l.take place ++ (l.drop place).take 4 ++ l.drop (place + 4) := by
    rw [List.append_assoc, ← List.drop_drop, List.take_append_drop, List.take_append_drop]
  have front : damaged.take place = whole.take place := by
    refine List.ext_getElem? fun i => ?_
    rw [List.getElem?_take, List.getElem?_take]
    split
    · exact outside i (by omega)
    · rfl
  have back : damaged.drop (place + 4) = whole.drop (place + 4) := by
    refine List.ext_getElem? fun i => ?_
    rw [List.getElem?_drop, List.getElem?_drop]
    exact outside _ (by omega)
  have length (l : List UInt8) (long : place + 4 ≤ l.length) : ((l.drop place).take 4).length = 4 := by
    rw [List.length_take, List.length_drop]
    omega
  refine ⟨whole.take place, (whole.drop place).take 4, (damaged.drop place).take 4,
    whole.drop (place + 4), split whole, ?_, length whole inside,
    length damaged (by rw [h.length]; exact inside), ?_⟩
  · rw [← front, ← back]
    exact split damaged
  · intro same
    refine h.changed ?_
    rw [split damaged, split whole, front, back, same]

/-- Any four bytes write a word. -/
theorem exists_wordBytes {four : List UInt8} (length : four.length = 4) :
    ∃ n, four = wordBytes n := by
  have below : ∀ l ∈ four.map UInt8.toNat, l < 256 := by
    intro l mem
    obtain ⟨b, -, rfl⟩ := List.mem_map.1 mem
    exact b.toNat_lt
  have small := Nat.ofDigits_lt_base_pow_length (by decide) below
  rw [List.length_map, length] at small
  refine ⟨(Nat.ofDigits 256 (four.map UInt8.toNat)).toUInt32, littleEndian_iff.1 ⟨length, ?_⟩⟩
  exact (UInt32.toNat_ofNat_of_lt' small).symm

/-- **A burst shows in the register**, wherever it begins. -/
theorem Burst.foldl_ne (h : Burst whole damaged) (long : 4 ≤ whole.length) (register : UInt32) :
    damaged.foldl Crc32.update register ≠ whole.foldl Crc32.update register := by
  obtain ⟨front, four, four', back, rfl, rfl, length, length', differ⟩ := h.parts long
  obtain ⟨n, rfl⟩ := exists_wordBytes length
  obtain ⟨n', rfl⟩ := exists_wordBytes length'
  intro same
  simp only [List.foldl_append] at same
  have words := Crc32.foldl_injective back same
  rw [Crc32.foldl_wordBytes, Crc32.foldl_wordBytes] at words
  have taken := Crc32.shifts_injective 32 words
  exact differ (congrArg wordBytes ((UInt32.xor_right_inj _).1 taken))

/-! ## Images -/

/-- **A damaged image is none**: bytes of another length, or changed by a burst. -/
theorem decode?_eq_none_of_damage (image : Whole chips)
    (damage : damaged.length ≠ (encode chips).length ∨ Burst (encode chips) damaged) :
    decode? damaged = none := by
  have length := length_encode image
  refine Option.eq_none_iff_forall_ne_some.2 fun chips' decoded => ?_
  obtain ⟨image', rfl⟩ := decode?_eq_some_iff.1 decoded
  rcases damage with resized | burst
  · exact resized ((length_encode image').trans length.symm)
  · refine burst.foldl_ne (by omega) 0xFFFFFFFF ?_
    rw [encode_eq, encode_eq, Crc32.foldl_checksum, Crc32.foldl_checksum]

end Image

namespace Eeprom

variable {e e' : Eeprom} {image damaged : List UInt8}

/-- What is saved is the image of the chips. -/
theorem image_of_save (kept : e.file ≠ none) (saved : e.save = (none, e'))
    (file : e'.file = some (.bytes image)) : image = Image.encode e.chips := by
  obtain ⟨chips, f, budget⟩ := e
  match f with
  | none => exact absurd rfl kept
  | some .absent | some (.bytes _) =>
    obtain ⟨-, rfl⟩ := Prod.mk.inj saved
    exact (ImageFile.bytes.inj (Option.some.inj file)).symm
  | some .blocked => exact nomatch (Prod.mk.inj saved).1

/-- An image that is saved, whatever was found in the file before and whatever
was done with the chips, is ignored once it is damaged: when its length is
another, or when some of its bytes have changed and lie within four in a row,
be they bytes of the chips or of the checksum. It is not decoded, and opening
it gives eight blank chips. -/
theorem damage_ignored (f : ImageFile) (us : List Use)
    (saved : ((openFile f).uses us).save = (none, e')) (file : e'.file = some (.bytes image))
    (damage : damaged.length ≠ image.length ∨ Image.Burst image damaged) :
    Image.decode? damaged = none ∧
      (openFile (.bytes damaged)).chips = Array.replicate 8 (Array.replicate 32768 0) := by
  obtain ⟨sound, kept⟩ := (sound_openFile f).uses (Option.some_ne_none f) us
  rw [image_of_save kept saved file] at damage
  have rejected := Image.decode?_eq_none_of_damage sound.whole damage
  refine ⟨rejected, ?_⟩
  have unread : (ImageFile.bytes damaged).read?.bind Image.decode? = none := rejected
  rw [openFile, unread]
  rfl

/-- A burst on the border changes the last byte of the chips and the first of
the checksum. -/
theorem damage_ignored_border :
    ∃ (e' : Eeprom) (image damaged : List UInt8) (last first : UInt8),
      ((openFile .absent).uses [.write 1 5 [7]]).save = (none, e') ∧
      e'.file = some (.bytes image) ∧
      image[262143]? = some last ∧ image[262144]? = some first ∧
      damaged = (image.set 262143 (last + 1)).set 262144 (first + 1) ∧
      Image.Burst image damaged ∧ Image.decode? damaged = none := by
  obtain ⟨sound, kept⟩ := (sound_openFile .absent).uses (Option.some_ne_none _) [.write 1 5 [7]]
  obtain ⟨e', saved, file⟩ : ∃ e' : Eeprom,
      ((openFile .absent).uses [.write 1 5 [7]]).save = (none, e') ∧
      e'.file = some (.bytes (Image.encode ((openFile .absent).uses [.write 1 5 [7]]).chips)) :=
    ⟨_, rfl, rfl⟩
  have length := Image.length_encode sound.whole
  generalize Image.encode ((openFile .absent).uses [.write 1 5 [7]]).chips = image at file length
  have size : chipCount * chipSize + 4 = 262148 := rfl
  have there (i : Nat) (less : i < 262148) : ∃ b, image[i]? = some b :=
    ⟨_, List.getElem?_eq_getElem (by omega)⟩
  obtain ⟨last, ends⟩ := there 262143 (by decide)
  obtain ⟨first, begins⟩ := there 262144 (by decide)
  have burst : Image.Burst image ((image.set 262143 (last + 1)).set 262144 (first + 1)) := by
    refine ⟨by rw [List.length_set, List.length_set], ?_, 262143, ?_⟩
    · intro same
      have changed : ((image.set 262143 (last + 1)).set 262144 (first + 1))[262143]? =
          image[262143]? := congrArg (·[262143]?) same
      rw [List.getElem?_set_ne (by decide), List.getElem?_set_self (by omega), ends,
        Option.some.injEq, UInt8.add_eq_left] at changed
      exact absurd changed (by decide)
    · intro i outside
      rw [List.getElem?_set_ne (by omega), List.getElem?_set_ne (by omega)]
  exact ⟨e', image, _, last, first, saved, file, ends, begins, rfl, burst,
    (damage_ignored .absent [.write 1 5 [7]] saved file (.inr burst)).1⟩

end Eeprom

end LineScript
