import LineScript.Proofs.Number.Extent
import Mathlib.Data.List.Induction
/-!
# Reading integers

`IsInteger` says what an integer looks like and which one it is: a sign or
none, and a numeral, which is decimal or announces its radix. It is about the
text that is left of what was written when spaces and commas are dropped; the
reading itself is not mentioned in it.

* `writes_iff` ties the digits that are written to those that are read.
* `IsNumeral.reads` follows a numeral past the radix and past what could make
  it a decimal number, and `IsInteger.split` finds its sign.
* `accumulate` is a word that takes the digits in one by one. It wraps at every
  one of them, and `accumulate_eq` says that wrapping once comes to the same.

All of them come together in `integers_wrap`: an integer is read modulo `2 ^ 32`
whatever its length is, and what stands behind it is not read.
-/

namespace LineScript

namespace Numeral

variable {t body : Text} {radix n : ℕ} {c : Char} {d : ℕ} {v : ℤ}

/-! ## Integers as they are written -/

/-- A digit or a letter of either case, and the value it has as a digit. -/
def IsDigitOf (c : Char) (d : ℕ) : Prop := c = d.digitChar ∨ c = d.digitChar.toUpper

/-- Digits of a radix, and the number they write: one more digit moves those
before it up by a place. -/
inductive Writes (radix : ℕ) : Text → ℕ → Prop where
  | digit {c : Char} {d : ℕ} : d < radix → IsDigitOf c d → Writes radix [c] d
  | push {t : Text} {n : ℕ} {c : Char} {d : ℕ} : Writes radix t n → d < radix → IsDigitOf c d →
      Writes radix (t ++ [c]) (n * radix + d)

/-- A numeral without a sign, and the number it stands for: decimal digits, or
digits of the radix that is announced. -/
inductive IsNumeral : Text → ℕ → Prop where
  | decimal {t : Text} {n : ℕ} : Writes 10 t n → IsNumeral t n
  | hexadecimal {c : Char} {t : Text} {n : ℕ} : c = 'x' ∨ c = 'X' → Writes 16 t n →
      IsNumeral ('0' :: c :: t) n
  | binary {c : Char} {t : Text} {n : ℕ} : c = 'b' ∨ c = 'B' → Writes 2 t n →
      IsNumeral ('0' :: c :: t) n

/-- A numeral with a sign or without, and the integer it stands for. -/
inductive IsInteger : Text → ℤ → Prop where
  | unsigned {t : Text} {n : ℕ} : IsNumeral t n → IsInteger t n
  | plus {t : Text} {n : ℕ} : IsNumeral t n → IsInteger ('+' :: t) n
  | minus {t : Text} {n : ℕ} : IsNumeral t n → IsInteger ('-' :: t) (-n)

/-! ## Digits -/

theorem digitValue_of_isDigitOf (h : IsDigitOf c d) (small : d < 16) : digitValue c = d := by
  have table : ∀ d < 16, digitValue d.digitChar = d ∧ digitValue d.digitChar.toUpper = d := by
    decide
  rcases h with rfl | rfl
  · exact (table d small).1
  · exact (table d small).2

/-- Whatever is read as a digit is one, as far as there are letters for it. -/
theorem isDigitOf_digitValue (small : digitValue c < 16) : IsDigitOf c (digitValue c) := by
  have table : ∀ k < 128, digitValue (Char.ofNat k) < 16 →
      Char.ofNat k = (digitValue (Char.ofNat k)).digitChar ∨
        Char.ofNat k = (digitValue (Char.ofNat k)).digitChar.toUpper := by
    decide +kernel
  have ascii : c.toNat < 128 := by
    rw [digitValue_eq] at small
    split_ifs at small <;> omega
  have same := table c.toNat ascii
  rw [Char.ofNat_toNat] at same
  exact same small

/-- The digits in radix ten are the decimal ones. -/
theorem isDigit_of_isDigit_ten (h : isDigit 10 c = true) : c.isDigit = true := by
  have zero : '0'.toNat = 48 := rfl
  have nine : '9'.toNat = 57 := rfl
  rw [isDigit, decide_eq_true_eq, digitValue_eq] at h
  rw [isDigit_iff]
  split_ifs at h <;> omega

theorem natOfDigits_concat (t : Text) (c : Char) :
    natOfDigits radix (t ++ [c]) = natOfDigits radix t * radix + digitValue c := by
  simp [natOfDigits]

/-- **Digits are read as the number they write**, and every text of digits writes one. -/
theorem writes_iff (le : radix ≤ 16) : Writes radix t n ↔
    t ≠ [] ∧ (∀ c ∈ t, isDigit radix c = true) ∧ natOfDigits radix t = n := by
  constructor
  · intro h
    have digit {c : Char} {d : ℕ} (small : d < radix) (h : IsDigitOf c d) :
        digitValue c = d ∧ isDigit radix c = true := by
      have value := digitValue_of_isDigitOf h (by omega)
      exact ⟨value, decide_eq_true (by omega)⟩
    induction h with
    | digit small h =>
      obtain ⟨value, isDigit⟩ := digit small h
      simp [natOfDigits, value, isDigit]
    | push _ small h ih =>
      obtain ⟨value, isDigit⟩ := digit small h
      obtain ⟨-, digits, number⟩ := ih
      rw [natOfDigits_concat, number, value]
      refine ⟨by simp, fun c mem => ?_, rfl⟩
      rcases List.mem_append.1 mem with front | last
      · exact digits c front
      · rw [List.mem_singleton.1 last]
        exact isDigit
  · rintro ⟨some, digits, rfl⟩
    -- `Writes` adds digits behind the others, so they are taken off from there
    induction t using List.reverseRecOn with
    | nil => exact absurd rfl some
    | append_singleton t c ih =>
      have last : digitValue c < radix := of_decide_eq_true (digits c (by simp))
      have isDigitOf := isDigitOf_digitValue (c := c) (by omega)
      rw [natOfDigits_concat]
      rcases eq_or_ne t [] with rfl | front
      · simpa [natOfDigits] using Writes.digit last isDigitOf
      · refine .push (ih front fun c mem => digits c (by simp [mem])) last isDigitOf

/-! ## Numerals -/

/-- **A numeral is read as the number it stands for**, and not as one with a
point or an exponent. -/
theorem IsNumeral.reads (h : IsNumeral body n) : wholeValue body = n ∧
    ¬ ((radixOf body).1 = 10 ∧ ¬ (Scientific.ofText body).isWhole) := by
  have taken {radix : ℕ} {t : Text} (h : Writes radix t n) (le : radix ≤ 16) :
      natOfDigits radix (t.takeWhile (isDigit radix)) = n := by
    obtain ⟨-, digits, number⟩ := (writes_iff le).1 h
    rw [List.takeWhile_eq_self_iff.2 digits, number]
  cases h with
  | decimal h =>
    obtain ⟨-, digits, -⟩ := (writes_iff (by decide)).1 h
    have decimal : body.Digits := fun c mem => isDigit_of_isDigit_ten (digits c mem)
    rw [wholeValue, radixOf_of_digits decimal, isWhole_of_digits decimal]
    exact ⟨taken h (by decide), by simp⟩
  | hexadecimal announced h =>
    have number := taken h le_rfl
    rcases announced with rfl | rfl <;> exact ⟨number, by simp [radixOf]⟩
  | binary announced h =>
    have number := taken h (by decide)
    rcases announced with rfl | rfl <;> exact ⟨number, by simp [radixOf]⟩

/-- A numeral begins with a digit, and not with a sign. -/
theorem IsNumeral.head (h : IsNumeral body n) : ∃ c t, body = c :: t ∧ c.isDigit = true := by
  cases h with
  | decimal h =>
    obtain ⟨some, digits, -⟩ := (writes_iff (by decide)).1 h
    obtain ⟨c, t, rfl⟩ := List.exists_cons_of_ne_nil some
    exact ⟨c, t, rfl, isDigit_of_isDigit_ten (digits c (by simp))⟩
  | hexadecimal => exact ⟨'0', _, rfl, rfl⟩
  | binary => exact ⟨'0', _, rfl, rfl⟩

/-! ## Integers -/

/-- **An integer is split** into its sign and a numeral. -/
theorem IsInteger.split (h : IsInteger (plain t) v) : ∃ negative body, ∃ n : ℕ,
    IsNumeral body n ∧ v = (if negative then -n else n) ∧ ofText t = ⟨negative, body⟩ := by
  generalize front : plain t = kept at h
  cases h with
  | unsigned h =>
    obtain ⟨c, body, rfl, digit⟩ := h.head
    exact ⟨false, _, _, h, rfl, ofText_unsigned front (unsigned_of_isDigit digit body)⟩
  | plus h => exact ⟨false, _, _, h, rfl, ofText_signed front (.inr rfl)⟩
  | minus h => exact ⟨true, _, _, h, rfl, ofText_signed front (.inl rfl)⟩

theorem ofInt_natCast (n : ℕ) : UInt32.ofInt n = n.toUInt32 := by
  apply UInt32.toNat_inj.1
  have residue : ((n : ℤ) % 2 ^ 32).toNat % 2 ^ 32 = n % 2 ^ 32 := by omega
  simpa [UInt32.ofInt] using residue

/-- **An integer is read modulo `2 ^ 32`.** -/
theorem toBits_of_integer (h : IsInteger (plain t) v) : toBits t = UInt32.ofInt v := by
  obtain ⟨negative, body, n, numeral, rfl, split⟩ := h.split
  obtain ⟨value, whole⟩ := numeral.reads
  rw [toBits_eq, split, bits]
  dsimp only
  rw [if_neg whole, value]
  cases negative with
  | true => exact ((UInt32.ofInt_neg n).trans (congrArg _ (ofInt_natCast n))).symm
  | false => exact (ofInt_natCast n).symm

/-! ## Words -/

/-- Digits taken into a word, one by one: the word is multiplied by the radix,
and the digit is added, and both wrap. -/
def accumulate (radix : ℕ) (word : UInt32) : Text → UInt32
  | [] => word
  | c :: t =>
    if isDigit radix c then
      accumulate radix (word * radix.toUInt32 + (digitValue c).toUInt32) t
    else word

/-- **Wrapping at every digit** comes to the same as wrapping once. -/
theorem accumulate_eq (radix : ℕ) (t : Text) (n : ℕ) : accumulate radix n.toUInt32 t =
    ((t.takeWhile (isDigit radix)).foldl (fun n c => n * radix + digitValue c) n).toUInt32 := by
  induction t generalizing n with
  | nil => rfl
  | cons c t ih =>
    unfold accumulate
    split
    · next digit =>
      -- the next word depends on the number only through the word that there is
      have step : n.toUInt32 * radix.toUInt32 + (digitValue c).toUInt32 =
          (n * radix + digitValue c).toUInt32 := by
        simp
      rw [step, ih, List.takeWhile_cons_of_pos digit, List.foldl_cons]
    · next other =>
      rw [List.takeWhile_cons_of_neg other]
      rfl

/-- The 32-bit pattern that a text reads as, with what the numeral does not go
on with cut off, and its digits taken into a word. -/
def accumulated (t : Text) : UInt32 :=
  let n := (ofText t).cut
  let s := Scientific.ofText n.body
  let (radix, digits) := radixOf n.body
  if radix = 10 ∧ ¬ s.isWhole then truncate (n.signed (s.toFloat?.getD 0))
  else n.signed (accumulate radix 0 digits)

theorem accumulated_eq (t : Text) : accumulated t = toBits t := by
  have wrapped (radix : ℕ) (digits : Text) : accumulate radix 0 digits =
      (natOfDigits radix (digits.takeWhile (isDigit radix))).toUInt32 := accumulate_eq radix digits 0
  rw [toBits_eq, ← bits_cut]
  unfold accumulated bits wholeValue
  simp only [wrapped]

theorem toNat_ofInt (v : ℤ) : ((UInt32.ofInt v).toNat : ℤ) = v % 2 ^ 32 := by
  rw [UInt32.ofInt, UInt32.toNat_ofNat']
  omega

theorem toInt_toInt32_ofInt (v : ℤ) : (UInt32.ofInt v).toInt32.toInt = v.bmod (2 ^ 32) := by
  have balanced : (UInt32.ofInt v).toInt32.toInt = ((UInt32.ofInt v).toNat : ℤ).bmod (2 ^ 32) :=
    BitVec.toInt_eq_toNat_bmod _
  rw [balanced, toNat_ofInt]
  exact Int.emod_bmod v (2 ^ 32)

/-- **An integer of any length is read modulo `2 ^ 32`**, as an unsigned word and
in two's complement as a signed one, wherever there are spaces and commas in
it. What stands behind it is not read, if it could not be part of it. It is all
the same whether the number wraps or the word it is taken into does, at every
digit. -/
theorem integers_wrap :
    (∀ t v, IsInteger (plain t) v →
      ((toBits t).toNat : ℤ) = v % 2 ^ 32 ∧ (toInt32 t).toInt = v.bmod (2 ^ 32)) ∧
    (∀ t rest, Stops rest → toBits (t ++ rest) = toBits t ∧ toInt32 (t ++ rest) = toInt32 t) ∧
    ∀ t, accumulated t = toBits t := by
  refine ⟨fun t v h => ⟨?_, ?_⟩, fun t rest stops => ?_, accumulated_eq⟩
  · rw [toBits_of_integer h, toNat_ofInt]
  · rw [toInt32, toBits_of_integer h, toInt_toInt32_ofInt]
  · have same := toBits_append stops t
    exact ⟨same, congrArg UInt32.toInt32 same⟩

/-- Fifteen hexadecimal digits with separators between them, and something else behind them. -/
theorem integers_wrap_hexadecimal :
    IsInteger (plain "-0 x1,2e4 5678,00b0 0e1".toList) (-0x12e4567800b00e1) ∧
    Stops "!b,0".toList ∧
    ((toBits ("-0 x1,2e4 5678,00b0 0e1".toList ++ "!b,0".toList)).toNat : ℤ) = 0x7ff4ff1f := by
  have digits : Writes 16 "12e4567800b00e1".toList 0x12e4567800b00e1 :=
    (writes_iff le_rfl).2 ⟨by decide, List.all_eq_true.1 (by decide +kernel), by decide +kernel⟩
  have kept : plain "-0 x1,2e4 5678,00b0 0e1".toList = "-0x12e4567800b00e1".toList := by
    decide +kernel
  have integer : IsInteger (plain "-0 x1,2e4 5678,00b0 0e1".toList) (-0x12e4567800b00e1) := by
    rw [kept]
    exact .minus (.hexadecimal (.inl rfl) digits)
  have stops : Stops "!b,0".toList := by
    intro c head
    obtain rfl : '!' = c := Option.some.inj head
    decide
  obtain ⟨wrap, behind, -⟩ := integers_wrap
  refine ⟨integer, stops, ?_⟩
  rw [(behind _ _ stops).1, (wrap _ _ integer).1]
  decide

end Numeral

end LineScript
