import LineScript.Arrays
/-!
# Packed elements

What is packed into heap words is read back from them. A word is a number
written in the base of the width, its first element being the lowest digit,
and it has a digit for each element a word takes: so the digits of a packed
word are its elements, each cut to the width, and then zeros.
-/

namespace LineScript

namespace Width

variable {w : Width} {elements : List UInt32}

/-! ## Digits -/

/-- What is left of an element that is put into an array of this width. -/
def cut (w : Width) (v : UInt32) : UInt32 := (v.toNat % w.base).toUInt32

theorem base_pos (w : Width) : 0 < w.base := by cases w <;> decide

theorem perWord_pos (w : Width) : 0 < w.perWord := by cases w <;> decide

/-- A word has a digit for each of its elements. -/
theorem base_pow_perWord (w : Width) : w.base ^ w.perWord = 2 ^ 32 := by cases w <;> decide

/-- The number that some elements make as digits. -/
def number (w : Width) (elements : List UInt32) : Nat :=
  elements.foldr (fun v word => v.toNat % w.base + w.base * word) 0

theorem number_cons (w : Width) (v : UInt32) (elements : List UInt32) :
    w.number (v :: elements) = v.toNat % w.base + w.base * w.number elements := rfl

/-- So many digits make no larger a number than they can. -/
theorem number_lt (w : Width) (elements : List UInt32) :
    w.number elements < w.base ^ elements.length := by
  induction elements with
  | nil => exact Nat.one_pos
  | cons v rest ih =>
    have digit := Nat.mod_lt v.toNat w.base_pos
    rw [number_cons, List.length_cons, Nat.pow_succ']
    calc v.toNat % w.base + w.base * w.number rest
        < w.base + w.base * w.number rest := by omega
      _ = w.base * (w.number rest + 1) := by rw [Nat.mul_succ, Nat.add_comm]
      _ ≤ w.base * w.base ^ rest.length := Nat.mul_le_mul_left _ ih

/-- **The digits of the number are the elements**, and zero from there on. -/
theorem digit_number (w : Width) (elements : List UInt32) (i : Nat) :
    (w.number elements / w.base ^ i % w.base).toUInt32 = (elements[i]?.map w.cut).getD 0 := by
  induction elements generalizing i with
  | nil =>
    have zero : w.number [] = 0 := rfl
    rw [zero, Nat.zero_div, Nat.zero_mod]
    rfl
  | cons v rest ih =>
    rw [number_cons]
    cases i with
    | zero =>
      rw [Nat.pow_zero, Nat.div_one, Nat.add_mul_mod_self_left, Nat.mod_mod]
      rfl
    | succ i =>
      have higher : (v.toNat % w.base + w.base * w.number rest) / w.base = w.number rest := by
        rw [Nat.add_mul_div_left _ _ w.base_pos, Nat.div_eq_of_lt (Nat.mod_lt _ w.base_pos),
          Nat.zero_add]
      rw [Nat.pow_succ', ← Nat.div_div_eq_div_mul, higher]
      exact ih i

/-! ## One word -/

/-- **A word is its number**, if it has room for the elements. -/
theorem toNat_packWord (h : elements.length ≤ w.perWord) :
    (w.packWord elements).toNat = w.number elements := by
  have small : w.number elements < 2 ^ 32 := by
    rw [← w.base_pow_perWord]
    exact Nat.lt_of_lt_of_le (w.number_lt elements) (Nat.pow_le_pow_right w.base_pos h)
  exact UInt32.toNat_ofNat_of_lt' small

theorem length_unpackWord (w : Width) (word : UInt32) :
    (w.unpackWord word).length = w.perWord := by
  rw [unpackWord, List.length_map, List.length_range]

/-- **What is packed into a word is read back from it**, cut to the width. -/
theorem take_unpackWord (h : elements.length ≤ w.perWord) :
    (w.unpackWord (w.packWord elements)).take elements.length = elements.map w.cut := by
  refine List.ext_getElem ?_ fun i small small' => ?_
  · rw [List.length_take, length_unpackWord, List.length_map]
    omega
  · have inside : i < elements.length := by
      rwa [List.length_map] at small'
    rw [List.getElem_take]
    simp only [unpackWord, List.getElem_map, List.getElem_range]
    rw [toNat_packWord h, digit_number, List.getElem?_eq_getElem inside]
    rfl

/-! ## Several words -/

theorem length_packWords (w : Width) (n : Nat) (elements : List UInt32) :
    (w.packWords n elements).length = n := by
  induction n generalizing elements with
  | zero => rfl
  | succ n ih => rw [packWords, List.length_cons, ih]

/-- What is packed into enough words is read back from them. -/
theorem unpack_packWords (n : Nat) (h : elements.length ≤ n * w.perWord) :
    w.unpack (w.packWords n elements) elements.length = elements.map w.cut := by
  unfold unpack
  induction n generalizing elements with
  | zero =>
    have none : elements = [] := List.eq_nil_of_length_eq_zero (by omega)
    subst none
    rfl
  | succ n ih =>
    rw [Nat.succ_mul] at h
    have rest : (elements.drop w.perWord).length ≤ n * w.perWord := by
      rw [List.length_drop]
      omega
    have later := ih rest
    have room : (elements.take w.perWord).length ≤ w.perWord := List.length_take_le _ _
    have size := length_unpackWord w (w.packWord (elements.take w.perWord))
    have first : (w.unpackWord (w.packWord (elements.take w.perWord))).take elements.length =
        (elements.take w.perWord).map w.cut := by
      rw [← take_unpackWord room, List.length_take]
      rcases Nat.le_total elements.length w.perWord with short | long
      · rw [Nat.min_eq_right short]
      · rw [Nat.min_eq_left long, List.take_of_length_le (Nat.le_of_eq size)]
        exact List.take_of_length_le (Nat.le_trans (Nat.le_of_eq size) long)
    rw [List.length_drop] at later
    rw [packWords, List.flatMap_cons, List.take_append, size, first, later,
      ← List.map_append, List.take_append_drop]

/-- There are words enough for the elements. -/
theorem le_wordsFor (w : Width) (n : Nat) : n ≤ w.wordsFor n * w.perWord := by
  have pos := w.perWord_pos
  have rounded := Nat.div_add_mod (n + w.perWord - 1) w.perWord
  have small := Nat.mod_lt (n + w.perWord - 1) pos
  rw [wordsFor, Nat.mul_comm]
  omega

theorem length_pack (w : Width) (elements : List UInt32) :
    (w.pack elements).length = w.wordsFor elements.length := length_packWords w _ _

/-- **What is packed is read back**, each element cut to the width. -/
theorem unpack_pack (w : Width) (elements : List UInt32) :
    w.unpack (w.pack elements) elements.length = elements.map w.cut :=
  unpack_packWords _ (w.le_wordsFor _)

/-- The words for some elements are their bytes, four to a word. -/
theorem wordsFor_eq (w : Width) (n : Nat) : w.wordsFor n = (n * w.bytes + 3) / 4 := by
  cases w <;> simp only [wordsFor, perWord, bytes] <;> omega

end Width

end LineScript
