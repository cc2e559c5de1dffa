import LineScript.Proofs.Number.Decimal
import LineScript.Value
/-!
# Values as text

The text of a value is read back as the same value, in every domain but that
of binary64 numbers (`reads_back`). A word is written with as many digits as
it takes, or with all of its binary ones, and either way nothing wraps; a
decimal is written with all of its digits, and a result that did not fit as a
text that is no numeral.
-/

namespace LineScript

namespace Numeral

variable {n radix : Nat} {c : Char}

/-! ## Words in decimal digits -/

/-- The word that a number is read as, with a sign or without. -/
theorem toBits_ofNat (negative : Bool) (n : Nat) :
    toBits (sign negative ++ Text.ofNat n) = if negative then -n.toUInt32 else n.toUInt32 := by
  have digits : (Text.ofNat n).Digits := digits_toDigits (by decide) (by decide) n
  have value : natOfDigits 10 (Text.ofNat n) = n := natOfDigits_toDigits (by decide) (by decide) n
  rw [toBits_of_digits digits Nat.toDigits_ne_nil, value]
  rfl

/-- **An integer is read as its word.** -/
theorem toInt32_ofInt (i : Int) : toInt32 (Text.ofInt i) = Int32.ofInt i := by
  cases i with
  | ofNat n =>
    have bits : toBits (Text.ofInt (Int.ofNat n)) = n.toUInt32 := toBits_ofNat false n
    rw [toInt32, bits]
    rfl
  | negSucc n =>
    have bits : toBits (Text.ofInt (Int.negSucc n)) = -(n + 1).toUInt32 := toBits_ofNat true (n + 1)
    rw [toInt32, bits, UInt32.toInt32_neg, Int.negSucc_eq, Int32.ofInt_neg]
    rfl

/-! ## Words in binary digits -/

/-- What is written for a number are digits of the radix. -/
theorem digitValue_lt_of_mem (two : 1 < radix) (le : radix ≤ 10)
    (mem : c ∈ Nat.toDigits radix n) : digitValue c < radix := by
  have value : ∀ d < radix, digitValue d.digitChar < radix := by
    intro d less
    have digit : d.digitChar.isDigit = true := by
      rw [Nat.isDigit_digitChar]
      exact decide_eq_true (by omega)
    have number := Nat.toNat_digitChar_of_lt_ten (n := d) (by omega)
    have zero : '0'.toNat = 48 := rfl
    rw [digitValue_of_isDigit digit]
    omega
  induction n using Nat.strongRecOn with
  | ind n ih =>
    rw [Nat.toDigits_eq_if two] at mem
    split at mem
    · next less =>
      rw [List.mem_singleton.1 mem]
      exact value n less
    · next more =>
      rcases List.mem_append.1 mem with front | last
      · exact ih (n / radix) (Nat.div_lt_self (by omega) two) front
      · rw [List.mem_singleton.1 last]
        exact value _ (Nat.mod_lt n (by omega))

/-- **The word that binary digits read as**, however many there are. -/
theorem toBits_of_binary {word : Text} (digits : word.Digits)
    (binary : ∀ c ∈ word, isDigit 2 c = true) :
    toBits ('0' :: 'b' :: word) = (natOfDigits 2 word).toUInt32 := by
  have plain : ∀ c ∈ '0' :: 'b' :: word, c ≠ ' ' ∧ c ≠ ',' := by
    intro c mem
    rcases List.mem_cons.1 mem with rfl | mem
    · exact ⟨by decide, by decide⟩
    · rcases List.mem_cons.1 mem with rfl | digit
      · exact ⟨by decide, by decide⟩
      · exact plain_of_isDigit (digits c digit)
  have read : ofText ('0' :: 'b' :: word) = ⟨false, '0' :: 'b' :: word⟩ :=
    ofText_sign plain ⟨'0', _, rfl, rfl⟩ false
  have announced : radixOf ('0' :: 'b' :: word) = (2, word) := rfl
  unfold toBits wholeValue
  rw [read]
  dsimp only
  rw [announced, if_neg fun decimal => absurd (show 2 = 10 from decimal.1) (by decide)]
  dsimp only
  rw [List.takeWhile_eq_self_iff.2 binary]
  rfl

/-- The 32 binary digits of a word. -/
def word (n : UInt32) : Text := Text.padLeft 32 '0' (Nat.toDigits 2 n.toNat)

theorem digits_word (n : UInt32) : (word n).Digits :=
  digits_padLeft 32 (digits_toDigits (by decide) (by decide) _)

theorem isDigit_word (n : UInt32) : ∀ c ∈ word n, isDigit 2 c = true := by
  intro c mem
  rcases List.mem_append.1 mem with zero | digit
  · rw [List.eq_of_mem_replicate zero]
    rfl
  · exact decide_eq_true (digitValue_lt_of_mem (by decide) (by decide) digit)

theorem natOfDigits_word (n : UInt32) : natOfDigits 2 (word n) = n.toNat := by
  rw [natOfDigits_eq (digits_word n), word, ofDigitChars_padLeft, Nat.zero_mul]
  exact Nat.ofDigitChars_toDigits (by decide) (by decide)

/-- **A word is read back from its binary digits.** -/
theorem toBits_ofBits (n : UInt32) : toBits (Text.ofBits n) = n := by
  have read := toBits_of_binary (digits_word n) (isDigit_word n)
  rw [natOfDigits_word n] at read
  exact read.trans UInt32.ofNat_toNat

end Numeral

namespace Value

/-- **The text of a value reads back as that value**: of a signed and of an
unsigned word, of a word in binary digits, and of a decimal, be it one that
did not fit. -/
theorem reads_back :
    (∀ n : Int32, parse (.number .signed) (render (.signed n)) = .signed n) ∧
    (∀ n : UInt32, parse (.number .unsigned) (render (.unsigned n)) = .unsigned n) ∧
    (∀ n : UInt32, parse .logic (Text.ofBits n) = .unsigned n) ∧
    (∀ x : Option Decimal, (∀ d, x = some d → d.Canonical) →
      Decimal.parseResult (Decimal.renderResult x) = x) := by
  refine ⟨fun n => ?_, fun n => ?_, fun n => ?_, fun x canonical => ?_⟩
  · exact congrArg signed ((Numeral.toInt32_ofInt n.toInt).trans (Int32.ofInt_toInt n))
  · exact congrArg unsigned ((Numeral.toBits_ofNat false n.toNat).trans UInt32.ofNat_toNat)
  · exact congrArg unsigned (Numeral.toBits_ofBits n)
  · exact Decimal.parseResult_renderResult canonical

/-- The decimal with the most digits after its point does so. -/
theorem reads_back_decimal :
    Decimal.parseResult (Decimal.renderResult (some ⟨-1234567890123457, 16⟩)) =
      some ⟨-1234567890123457, 16⟩ := by
  obtain ⟨-, -, -, decimals⟩ := reads_back
  refine decimals _ fun d same => ?_
  obtain rfl := Option.some.inj same
  exact ⟨by decide, by decide, by decide⟩

end Value

end LineScript
