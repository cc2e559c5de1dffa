import LineScript.Proofs.Board.Eeprom
import Mathlib.Data.Nat.Digits.Lemmas
/-!
# Images of chips

An image is the bytes of all chips followed by their CRC-32, and only that is
decoded as one (`decode?_eq_some_iff`); whatever else is found in a file leaves
the chips blank. Every write that succeeds leaves the image of the chips in the
file, and no later use of them parts the two (`Saved.use`), so a file that is
opened again gives the chips that were left (`image_round_trip`).
-/

namespace LineScript

namespace Image

variable {bytes : List UInt8} {chips : Array Chip}

/-- The bytes of all chips, one chip after another. -/
def data (chips : Array Chip) : List UInt8 := chips.toList.flatMap Array.toList

/-- Four bytes that write a word, the lowest first. -/
def LittleEndian (n : UInt32) (bytes : List UInt8) : Prop :=
  bytes.length = 4 ∧ Nat.ofDigits 256 (bytes.map UInt8.toNat) = n.toNat

/-! ## The checksum -/

theorem littleEndian_wordBytes (n : UInt32) : LittleEndian n (wordBytes n) := by
  refine ⟨rfl, ?_⟩
  have small := n.toNat_lt
  simp only [wordBytes, List.map_cons, List.map_nil, Nat.ofDigits_cons, Nat.ofDigits_nil,
    UInt32.toNat_toUInt8, UInt32.toNat_shiftRight]
  simp
  omega

/-- There is one way to write a word. -/
theorem littleEndian_iff {n : UInt32} : LittleEndian n bytes ↔ bytes = wordBytes n := by
  constructor
  · intro written
    have standard := littleEndian_wordBytes n
    have below (bs : List UInt8) : ∀ l ∈ bs.map UInt8.toNat, l < 256 := by
      intro l mem
      obtain ⟨b, -, rfl⟩ := List.mem_map.1 mem
      exact b.toNat_lt
    have digits : bytes.map UInt8.toNat = (wordBytes n).map UInt8.toNat := by
      refine Nat.ofDigits_inj_of_len_eq (by decide) ?_ (below _) (below _)
        (written.2.trans standard.2.symm)
      rw [List.length_map, List.length_map, written.1, standard.1]
    exact List.map_injective_iff.2 (fun _ _ => UInt8.toNat_inj.1) digits
  · rintro rfl
    exact littleEndian_wordBytes n

/-! ## The chips -/

/-- Chips of their size take their bytes each. -/
theorem length_flatMap {chips : List Chip} (sized : ∀ c ∈ chips, c.size = chipSize) :
    (chips.flatMap Array.toList).length = chips.length * chipSize := by
  induction chips with
  | nil => exact (Nat.zero_mul _).symm
  | cons c chips ih =>
    have size := sized c List.mem_cons_self
    rw [List.flatMap_cons, List.length_append, Array.length_toList, size,
      ih fun c mem => sized c (List.mem_cons_of_mem _ mem), List.length_cons, Nat.succ_mul,
      Nat.add_comm]

/-- They are split where they were put together. -/
theorem split_flatMap {chips : List Chip} (sized : ∀ c ∈ chips, c.size = chipSize) :
    split chips.length (chips.flatMap Array.toList) = chips := by
  induction chips with
  | nil => rfl
  | cons c chips ih =>
    have size : c.toList.length = chipSize := sized c List.mem_cons_self
    rw [List.length_cons, split, List.flatMap_cons, List.take_left' size, List.drop_left' size,
      Array.toArray_toList, ih fun c mem => sized c (List.mem_cons_of_mem _ mem)]

/-- And what is split is put together again. -/
theorem flatMap_split {count : Nat} {bytes : List UInt8} (long : bytes.length = count * chipSize) :
    (split count bytes).flatMap Array.toList = bytes := by
  induction count generalizing bytes with
  | zero =>
    rw [Nat.zero_mul] at long
    exact (List.length_eq_zero_iff.1 long).symm
  | succ count ih =>
    have rest : (bytes.drop chipSize).length = count * chipSize := by
      rw [List.length_drop, long, Nat.succ_mul, Nat.add_sub_cancel]
    rw [split, List.flatMap_cons, ih rest]
    exact List.take_append_drop _ _

/-! ## Decoding -/

/-- As many chips as there are, each of its size. -/
def Whole (chips : Array Chip) : Prop := chips.size = chipCount ∧ ∀ c ∈ chips, c.size = chipSize

theorem Whole.length_data (whole : Whole chips) : (data chips).length = chipCount * chipSize := by
  have sized : ∀ c ∈ chips.toList, c.size = chipSize :=
    fun c mem => whole.2 c (Array.mem_toList_iff.1 mem)
  rw [data, length_flatMap sized, Array.length_toList, whole.1]

theorem encode_eq (chips : Array Chip) :
    encode chips = data chips ++ wordBytes (Crc32.checksum (data chips)) := rfl

theorem length_encode (whole : Whole chips) :
    (encode chips).length = chipCount * chipSize + 4 := by
  rw [encode_eq, List.length_append, whole.length_data]
  rfl

/-- An image is decoded as the chips it was made of. -/
theorem decode?_encode (whole : Whole chips) : decode? (encode chips) = some chips := by
  have sized : ∀ c ∈ chips.toList, c.size = chipSize :=
    fun c mem => whole.2 c (Array.mem_toList_iff.1 mem)
  have front : (encode chips).take (chipCount * chipSize) = data chips :=
    List.take_left' whole.length_data
  have back : (encode chips).drop (chipCount * chipSize) =
      wordBytes (Crc32.checksum (data chips)) := List.drop_left' whole.length_data
  have parts : split chipCount (data chips) = chips.toList := by
    rw [← whole.1, ← Array.length_toList]
    exact split_flatMap sized
  unfold decode?
  dsimp only
  rw [if_neg (not_not.2 (length_encode whole)), front, back, if_pos rfl, parts]

/-- **Just the images are decoded.** -/
theorem decode?_eq_some_iff : decode? bytes = some chips ↔ Whole chips ∧ bytes = encode chips := by
  constructor
  · intro decoded
    unfold decode? at decoded
    dsimp only at decoded
    split at decoded
    · cases decoded
    next length =>
    -- the length leaves four bytes for the checksum
    split at decoded
    · next checked =>
      cases decoded
      have front : (bytes.take (chipCount * chipSize)).length = chipCount * chipSize := by
        rw [List.length_take]
        omega
      have parts : data (split chipCount (bytes.take (chipCount * chipSize))).toArray =
          bytes.take (chipCount * chipSize) := flatMap_split front
      refine ⟨⟨length_split _ _, fun c mem => ?_⟩, ?_⟩
      · exact size_of_mem_split front.ge (List.mem_toArray.1 mem)
      · rw [encode_eq, parts, ← checked, List.take_append_drop]
    · cases decoded
  · rintro ⟨whole, rfl⟩
    exact decode?_encode whole

end Image

namespace Eeprom

variable {e : Eeprom} {chip address count : Nat} {bytes : List UInt8} {f : ImageFile}

/-! ## Using chips -/

/-- What is done with chips: bytes are read or written, or a limit is set on
the transfers to come. -/
inductive Use where
  | read (chip address count : Nat)
  | write (chip address : Nat) (bytes : List UInt8)
  | limit (transfers : Nat)

/-- What a use leaves, also one that fails. -/
def use (e : Eeprom) : Use → Eeprom
  | .read chip address count =>
    match e.read chip address count with
    | .ok (_, e) => e
    | .error _ => e
  | .write chip address bytes => (e.write chip address bytes).2
  | .limit transfers => { e with budget := some transfers }

/-- What several uses leave. -/
def uses (e : Eeprom) (us : List Use) : Eeprom := us.foldl use e

/-- The image in the file is that of the chips. -/
structure Saved (e : Eeprom) : Prop where
  sound : e.Sound
  image : e.file = some (.bytes (Image.encode e.chips))

theorem Sound.whole (h : e.Sound) : Image.Whole e.chips := by
  refine ⟨h.count, fun c mem => ?_⟩
  obtain ⟨chip, there⟩ := Array.mem_iff_getElem?.1 mem
  exact h.size chip c there

/-- Beginning a transfer changes neither the chips nor the file. -/
theorem access_kept {e' : Eeprom} (begins : e.access chip address count = .ok e') :
    e'.chips = e.chips ∧ e'.file = e.file := by
  refine ⟨(access_ok begins).2, ?_⟩
  unfold access at begins
  split at begins
  · cases begins
  · split at begins
    · cases begins
    · split at begins <;> cases begins <;> rfl

/-- So a read changes neither, whether it succeeds or not. -/
theorem use_read (e : Eeprom) (chip address count : Nat) :
    (e.use (.read chip address count)).chips = e.chips ∧
      (e.use (.read chip address count)).file = e.file := by
  unfold use
  dsimp only
  unfold Eeprom.read
  cases begins : e.access chip address count with
  | error fault => exact ⟨rfl, rfl⟩
  | ok e' => exact access_kept begins

/-- **A write is refused, or the chips are saved** with their new bytes. -/
theorem write_cases (e : Eeprom) (chip address : Nat) (bytes : List UInt8) :
    (∃ fault, e.write chip address bytes = (some fault, e)) ∨
      ∃ e' : Eeprom, e.write chip address bytes = e'.save ∧ e'.file = e.file ∧
        (e.Sound → e'.Sound) := by
  unfold Eeprom.write
  split
  · next fault _ => exact .inl ⟨fault, rfl⟩
  · next e' begins =>
    obtain ⟨same, file⟩ := access_kept begins
    refine .inr ⟨_, rfl, file, fun sound => ?_⟩
    have begun : e'.Sound := ⟨same ▸ sound.count, same ▸ sound.size⟩
    exact begun.patch chip (access_ok begins).1

/-- Saving keeps a file, and if it succeeds the file holds the image. -/
theorem save_kept (kept : e.file ≠ none) :
    e.save.2.file ≠ none ∧ (e.Sound → e.save.1 = none → e.save.2.Saved) := by
  obtain ⟨chips, file, budget⟩ := e
  match file with
  | none => exact absurd rfl kept
  | some .absent | some (.bytes _) =>
    exact ⟨nofun, fun sound _ => ⟨⟨sound.count, sound.size⟩, rfl⟩⟩
  | some .blocked => exact ⟨nofun, nofun⟩

/-- **A write that succeeds saves the image.** -/
theorem Sound.saved_write (h : e.Sound) (kept : e.file ≠ none)
    (done : (e.write chip address bytes).1 = none) : (e.write chip address bytes).2.Saved := by
  rcases e.write_cases chip address bytes with ⟨fault, refused⟩ | ⟨e', saves, file, sound⟩
  · rw [refused] at done
    cases done
  · rw [saves] at done ⊢
    exact (save_kept (file ▸ kept)).2 (sound h) done

/-- **Every use leaves the chips sound**, and kept in a file if they were. -/
theorem Sound.use (h : e.Sound) (kept : e.file ≠ none) (u : Use) :
    (e.use u).Sound ∧ (e.use u).file ≠ none := by
  cases u with
  | read chip address count =>
    obtain ⟨chips, file⟩ := e.use_read chip address count
    exact ⟨⟨chips ▸ h.count, chips ▸ h.size⟩, file ▸ kept⟩
  | write chip address bytes =>
    refine ⟨h.write chip address bytes, ?_⟩
    rcases e.write_cases chip address bytes with ⟨fault, refused⟩ | ⟨e', saves, file, -⟩
    · rw [Eeprom.use, refused]
      exact kept
    · rw [Eeprom.use, saves]
      exact (save_kept (file ▸ kept)).1
  | limit transfers => exact ⟨⟨h.count, h.size⟩, kept⟩

/-- **What is saved stays saved**, whatever is done with the chips: reads and
refused writes change nothing, and the file can be written as it was before. -/
theorem Saved.use (h : e.Saved) (u : Use) : (e.use u).Saved := by
  cases u with
  | read chip address count =>
    obtain ⟨chips, file⟩ := e.use_read chip address count
    refine ⟨⟨chips ▸ h.sound.count, chips ▸ h.sound.size⟩, ?_⟩
    rw [file, chips]
    exact h.image
  | write chip address bytes =>
    rcases e.write_cases chip address bytes with ⟨fault, refused⟩ | ⟨e', saves, file, sound⟩
    · rw [Eeprom.use, refused]
      exact h
    · have image := file.trans h.image
      have saved : e'.Saves := fun blocked => nomatch image.symm.trans blocked
      obtain ⟨_, done, -⟩ := save_eq saved
      rw [Eeprom.use, saves]
      refine (save_kept ?_).2 (sound h.sound) ?_
      · rw [image]
        exact nofun
      · rw [done]
  | limit transfers => exact ⟨⟨h.sound.count, h.sound.size⟩, h.image⟩

/-- A saved image gives the chips back. -/
theorem Saved.reopen (h : e.Saved) : ∃ g, e.file = some g ∧ (openFile g).chips = e.chips := by
  refine ⟨_, h.image, ?_⟩
  have decoded : (ImageFile.bytes (Image.encode e.chips)).read?.bind Image.decode? =
      some e.chips := Image.decode?_encode h.sound.whole
  rw [openFile, decoded]
  rfl

/-! ## Whole histories -/

theorem Sound.uses (h : e.Sound) (kept : e.file ≠ none) (us : List Use) :
    (e.uses us).Sound ∧ (e.uses us).file ≠ none := by
  induction us generalizing e with
  | nil => exact ⟨h, kept⟩
  | cons u us ih => exact ih (h.use kept u).1 (h.use kept u).2

theorem Saved.uses (h : e.Saved) (us : List Use) : (e.uses us).Saved := by
  induction us generalizing e with
  | nil => exact h
  | cons u us ih => exact ih (h.use u)

/-- **An image gives the chips back.** An image is the bytes of the eight chips
and their CRC-32, the lowest byte first, and nothing else is decoded as one; a
file that holds none is opened with blank chips. After any reads, writes and
limits of which one write has succeeded, opening the file again gives the same
chips. -/
theorem image_round_trip :
    (∀ bytes chips, Image.decode? bytes = some chips ↔
      chips.size = 8 ∧ (∀ c ∈ chips, c.size = 32768) ∧
      ∃ sum, bytes = Image.data chips ++ sum ∧
        Image.LittleEndian (Crc32.checksum (Image.data chips)) sum) ∧
    (∀ f : ImageFile, f.read?.bind Image.decode? = none →
      (openFile f).chips = Array.replicate 8 (Array.replicate 32768 0)) ∧
    ∀ (f : ImageFile) (before : List Use) (chip address : Nat) (bytes : List UInt8)
        (after : List Use),
      (((openFile f).uses before).write chip address bytes).1 = none →
      ∃ g, ((openFile f).uses (before ++ .write chip address bytes :: after)).file = some g ∧
        (openFile g).chips =
          ((openFile f).uses (before ++ .write chip address bytes :: after)).chips := by
  refine ⟨fun bytes chips => ?_, fun f empty => ?_,
    fun f before chip address bytes after done => ?_⟩
  · rw [Image.decode?_eq_some_iff, Image.encode_eq, Image.Whole, and_assoc]
    simp only [Image.littleEndian_iff, exists_eq_right]
    rfl
  · rw [openFile, empty]
    rfl
  · obtain ⟨sound, kept⟩ := (sound_openFile f).uses (Option.some_ne_none f) before
    have saved := (sound.saved_write kept done).uses after
    rw [uses, List.foldl_append]
    exact saved.reopen

/-- Transfers that are refused before and after the write do not part them. -/
theorem image_round_trip_refused :
    let us : List Use := [.write 8 0 [1], .write 1 5 [7], .limit 1, .read 1 5 1, .write 1 5 [8]]
    ∃ g, ((openFile .absent).uses us).file = some g ∧
      (openFile g).chips = ((openFile .absent).uses us).chips :=
  image_round_trip.2.2 .absent [.write 8 0 [1]] 1 5 [7] [.limit 1, .read 1 5 1, .write 1 5 [8]] rfl

end Eeprom

end LineScript
