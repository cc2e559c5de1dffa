import LineScript.Number.Numeral
import Mathlib.Data.List.TakeWhile
/-!
# Digits

The digits that are written for a number read back as that number, in every
radix that needs no letters, and zeros in front of them do not count. A text
of digits is a numeral without a sign, an announcement, a point or an
exponent, so whatever reads numerals reads all of it.
-/

namespace LineScript

/-- Whether a text consists of decimal digits. -/
def Text.Digits (t : Text) : Prop := ∀ c ∈ t, c.isDigit = true

namespace Numeral

variable {c : Char} {t : Text} {radix n : Nat}

/-! ## Their value -/

theorem isDigit_iff : c.isDigit = true ↔ '0'.toNat ≤ c.toNat ∧ c.toNat ≤ '9'.toNat := by
  rw [Char.isDigit, Bool.and_eq_true, decide_eq_true_eq, decide_eq_true_eq]
  exact Iff.rfl

/-- A decimal digit counts from zero. -/
theorem digitValue_of_isDigit (h : c.isDigit = true) : digitValue c = c.toNat - '0'.toNat := by
  have range : '0' ≤ c ∧ c ≤ '9' := isDigit_iff.1 h
  rw [digitValue, if_pos range]

theorem digitValue_lt (h : c.isDigit = true) : digitValue c < 10 := by
  have range := isDigit_iff.1 h
  have nine : '9'.toNat = '0'.toNat + 9 := rfl
  rw [digitValue_of_isDigit h]
  omega

/-- A digit is none of the characters that are dropped from a numeral. -/
theorem plain_of_isDigit (h : c.isDigit = true) : c ≠ ' ' ∧ c ≠ ',' := by
  constructor <;> rintro rfl <;> exact absurd h (by decide)

/-- **The value of digits**, as the core library has it. -/
theorem foldl_digitValue (h : t.Digits) (start : Nat) :
    t.foldl (fun n c => n * radix + digitValue c) start = Nat.ofDigitChars radix t start := by
  induction t generalizing start with
  | nil => rfl
  | cons c t ih =>
    have digit := h c List.mem_cons_self
    rw [List.foldl_cons, Nat.ofDigitChars_cons, digitValue_of_isDigit digit, Nat.mul_comm start]
    exact ih (fun c mem => h c (List.mem_cons_of_mem _ mem)) _

theorem natOfDigits_eq (h : t.Digits) : natOfDigits radix t = Nat.ofDigitChars radix t 0 :=
  foldl_digitValue h 0

/-- More digits do not make a number smaller. -/
theorem le_ofDigitChars (pos : 0 < radix) (t : Text) (start : Nat) :
    start ≤ Nat.ofDigitChars radix t start := by
  induction t generalizing start with
  | nil => exact Nat.le_refl start
  | cons c t ih =>
    rw [Nat.ofDigitChars_cons]
    have grown : start ≤ radix * start := Nat.le_mul_of_pos_left start pos
    exact Nat.le_trans (Nat.le_trans grown (Nat.le_add_right _ _)) (ih _)

/-! ## What is written for a number -/

theorem digits_toDigits (pos : 0 < radix) (le : radix ≤ 10) (n : Nat) :
    Text.Digits (Nat.toDigits radix n) :=
  fun _ mem => Nat.isDigit_of_mem_toDigits pos le mem

theorem digits_padLeft (width : Nat) (h : t.Digits) : (Text.padLeft width '0' t).Digits := by
  intro c mem
  rcases List.mem_append.1 mem with zero | digit
  · rw [List.eq_of_mem_replicate zero]
    rfl
  · exact h c digit

/-- **Zeros in front do not count.** -/
theorem ofDigitChars_padLeft (width : Nat) (t : Text) (start : Nat) :
    Nat.ofDigitChars radix (Text.padLeft width '0' t) start =
      Nat.ofDigitChars radix t (start * radix ^ (width - t.length)) := by
  rw [Text.padLeft, Nat.ofDigitChars_append, Nat.ofDigitChars_replicate_zero, Nat.mul_comm]

theorem length_padLeft {width : Nat} (fits : t.length ≤ width) :
    (Text.padLeft width '0' t).length = width := by
  rw [Text.padLeft, List.length_append, List.length_replicate]
  omega

/-- **What is written for a number reads as that number.** -/
theorem natOfDigits_toDigits (two : 1 < radix) (le : radix ≤ 10) (n : Nat) :
    natOfDigits radix (Nat.toDigits radix n) = n := by
  rw [natOfDigits_eq (digits_toDigits (by omega) le n), Nat.ofDigitChars_toDigits two le]

/-! ## Reading a text of digits -/

/-- A sign in front of a text, if the number is negative. -/
def sign (negative : Bool) : Text := if negative then ['-'] else []

/-- A text that does not begin with a sign. -/
def Unsigned (t : Text) : Prop := ∀ c, t.head? = some c → c ≠ '-' ∧ c ≠ '+'

theorem unsigned_of_isDigit (h : c.isDigit = true) (rest : Text) : Unsigned (c :: rest) := by
  intro first same
  obtain rfl : c = first := Option.some.inj same
  constructor <;> rintro rfl <;> exact absurd h (by decide)

theorem ofText_unsigned {body : Text}
    (kept : t.filter (fun c => decide (c ≠ ' ' ∧ c ≠ ',')) = body) (unsigned : Unsigned body) :
    ofText t = ⟨false, body⟩ := by
  rw [ofText, kept]
  split
  · exact absurd rfl (unsigned '-' rfl).1
  · exact absurd rfl (unsigned '+' rfl).2
  · rfl

/-- **A numeral is split after its sign**, if it holds no spaces and commas and
goes on with a digit. -/
theorem ofText_sign {body : Text} (plain : ∀ c ∈ body, c ≠ ' ' ∧ c ≠ ',')
    (first : ∃ c rest, body = c :: rest ∧ c.isDigit = true) (negative : Bool) :
    ofText (sign negative ++ body) = ⟨negative, body⟩ := by
  have kept : (sign negative ++ body).filter (fun c => decide (c ≠ ' ' ∧ c ≠ ',')) =
      sign negative ++ body := by
    rw [List.filter_eq_self]
    intro c mem
    rcases List.mem_append.1 mem with front | behind
    · cases negative with
      | false => exact absurd front List.not_mem_nil
      | true =>
        rw [List.mem_singleton.1 front]
        rfl
    · exact decide_eq_true (plain c behind)
  cases negative with
  | true =>
    rw [ofText, kept]
    rfl
  | false =>
    obtain ⟨c, rest, rfl, digit⟩ := first
    exact ofText_unsigned kept (unsigned_of_isDigit digit rest)

/-- Digits announce no radix. -/
theorem radixOf_of_digits (h : t.Digits) : radixOf t = (10, t) := by
  unfold radixOf
  split
  · exact absurd (h 'x' (by simp)) (by decide)
  · exact absurd (h 'X' (by simp)) (by decide)
  · exact absurd (h 'b' (by simp)) (by decide)
  · exact absurd (h 'B' (by simp)) (by decide)
  · rfl

/-- And they have neither point nor exponent. -/
theorem isWhole_of_digits (h : t.Digits) : (Scientific.ofText t).isWhole = true := by
  have none : t.dropWhile Char.isDigit = [] := List.dropWhile_eq_nil_iff.2 h
  rw [Scientific.ofText, none]
  rfl

/-- **The word that digits read as**, with a sign or without. -/
theorem toBits_of_digits (h : t.Digits) (some : t ≠ []) (negative : Bool) :
    toBits (sign negative ++ t) =
      (⟨negative, t⟩ : Numeral).signed (natOfDigits 10 t).toUInt32 := by
  obtain ⟨c, rest, rfl⟩ := List.exists_cons_of_ne_nil some
  have plain : ∀ c' ∈ c :: rest, c' ≠ ' ' ∧ c' ≠ ',' := fun c' mem => plain_of_isDigit (h c' mem)
  have digits : ∀ c' ∈ c :: rest, isDigit 10 c' = true :=
    fun c' mem => decide_eq_true (digitValue_lt (h c' mem))
  have first := h c List.mem_cons_self
  unfold toBits wholeValue
  simp only [ofText_sign plain ⟨c, rest, rfl, first⟩, radixOf_of_digits h, isWhole_of_digits h]
  rw [List.takeWhile_eq_self_iff.2 digits, if_neg (by decide)]

end Numeral

end LineScript
