import LineScript.Proofs.Number.Digits
import Mathlib.Tactic.SplitIfs
/-!
# How far numerals go

Behind its sign, a numeral goes on with letters and digits, points and further
signs (`isPart`). All that is read of a text is read of the part before anything
else: the radix and the digits behind it (`radixOf_cut`, `wholeValue_cut`), the
point and the exponent (`scientific_cut`), and so the pattern that they come to
(`bits_cut`). Nothing that is written behind the numeral is read, whatever the
numeral looks like (`toBits_append`).
-/

namespace LineScript

namespace Numeral

variable {t rest : Text} {c : Char} {p : Char → Bool}

/-! ## What numerals go on with -/

/-- The text without its spaces and commas. -/
def plain (t : Text) : Text := t.filter fun c => c ≠ ' ' ∧ c ≠ ','

/-- Whether a numeral may go on with a character. -/
def isPart (c : Char) : Bool := c.isAlphanum || decide (c ∈ ['.', '+', '-'])

/-- A text that no numeral goes on with. -/
def Stops (t : Text) : Prop :=
  ∀ c, t.head? = some c → c ∉ [' ', ',', '.', '+', '-'] ∧ c.isAlphanum = false

/-- A numeral without what it does not go on with. -/
def cut (n : Numeral) : Numeral := ⟨n.negative, n.body.takeWhile isPart⟩

theorem isPart_of_isDigit (h : c.isDigit = true) : isPart c = true := by
  simp [isPart, Char.isAlphanum, h]

/-! ## Signs -/

theorem exists_sign (h : ¬ Unsigned t) : ∃ s rest, t = s :: rest ∧ (s = '-' ∨ s = '+') := by
  cases t with
  | nil => exact absurd nofun h
  | cons s t => exact ⟨s, t, rfl, by simpa [Unsigned, or_iff_not_imp_left] using h⟩

theorem ofText_signed {s : Char} {body : Text} (kept : plain t = s :: body)
    (sign : s = '-' ∨ s = '+') : ofText t = ⟨s = '-', body⟩ := by
  rw [plain] at kept
  rw [ofText, kept]
  rcases sign with rfl | rfl <;> rfl

/-! ## Digits -/

theorem digitValue_eq (c : Char) : digitValue c =
    if 48 ≤ c.toNat ∧ c.toNat ≤ 57 then c.toNat - 48
    else if 97 ≤ c.toNat ∧ c.toNat ≤ 122 then c.toNat - 97 + 10
    else if 65 ≤ c.toNat ∧ c.toNat ≤ 90 then c.toNat - 65 + 10
    else 36 := rfl

theorem isAlphanum_iff (c : Char) : c.isAlphanum = true ↔
    (48 ≤ c.toNat ∧ c.toNat ≤ 57) ∨ (97 ≤ c.toNat ∧ c.toNat ≤ 122) ∨
      (65 ≤ c.toNat ∧ c.toNat ≤ 90) := by
  have kinds : c.isAlphanum = (c.isUpper || c.isLower || c.isDigit) := rfl
  have upper : c.isUpper = true ↔ 65 ≤ c.toNat ∧ c.toNat ≤ 90 := decide_eq_true_iff
  have lower : c.isLower = true ↔ 97 ≤ c.toNat ∧ c.toNat ≤ 122 :=
    Bool.and_eq_true_iff.trans (and_congr decide_eq_true_iff decide_eq_true_iff)
  have digit : c.isDigit = true ↔ 48 ≤ c.toNat ∧ c.toNat ≤ 57 := isDigit_iff
  rw [kinds, Bool.or_eq_true, Bool.or_eq_true, upper, lower, digit]
  omega

/-- A digit of any radix is a part, as far as there are letters for it. -/
theorem isPart_of_digit {radix : ℕ} (le : radix ≤ 36) (h : isDigit radix c = true) :
    isPart c = true := by
  rw [isDigit, decide_eq_true_eq, digitValue_eq] at h
  rw [isPart, Bool.or_eq_true, isAlphanum_iff]
  split_ifs at h <;> omega

/-! ## Cutting

Cutting keeps whatever looks at the front of a text only, and a piece of it at a time. -/

section Cut

variable (parts : ∀ {c}, p c = true → isPart c = true)
include parts

/-- A run of what numerals go on with is not cut. -/
theorem takeWhile_cut (t : Text) : (t.takeWhile isPart).takeWhile p = t.takeWhile p := by
  induction t with
  | nil => rfl
  | cons c t ih =>
    cases taken : p c with
    | true => simp [parts taken, taken, ih]
    | false => cases part : isPart c <;> simp [part, taken]

/-- And what stands behind it is cut in the same place. -/
theorem dropWhile_cut (t : Text) :
    (t.takeWhile isPart).dropWhile p = (t.dropWhile p).takeWhile isPart := by
  induction t with
  | nil => rfl
  | cons c t ih =>
    cases taken : p c with
    | true => simp [parts taken, taken, ih]
    | false => cases part : isPart c <;> simp [part, taken]

end Cut

/-- What is left of a text begins as the text does. -/
theorem head?_takeWhile (h : (t.takeWhile p).head? = some c) : t.head? = some c := by
  cases t with
  | nil => cases h
  | cons c t =>
    cases taken : p c with
    | true => rwa [List.takeWhile_cons_of_pos taken] at h
    | false => simp [taken] at h

theorem radixOf_le (t : Text) : (radixOf t).1 ≤ 36 := by
  unfold radixOf
  split <;> simp

theorem radixOf_cut (t : Text) :
    radixOf (t.takeWhile isPart) = ((radixOf t).1, (radixOf t).2.takeWhile isPart) := by
  match t with
  | [] => rfl
  | [c] => cases part : isPart c <;> simp [radixOf, part]
  | zero :: c :: t =>
    by_cases announced : zero = '0' ∧ (c = 'x' ∨ c = 'X' ∨ c = 'b' ∨ c = 'B')
    · obtain ⟨rfl, rfl | rfl | rfl | rfl⟩ := announced <;> rfl
    · -- the announcement is looked for in two characters, and either may be the first to be cut
      have decimal (t : Text) : radixOf (zero :: c :: t) = (10, zero :: c :: t) := by
        unfold radixOf
        split <;> simp_all
      rw [decimal]
      cases first : isPart zero with
      | false => simp [radixOf, first]
      | true =>
        cases second : isPart c with
        | true => simp [decimal, first, second]
        | false => simp [radixOf, first, second]

theorem wholeValue_cut (t : Text) : wholeValue (t.takeWhile isPart) = wholeValue t := by
  unfold wholeValue
  rw [radixOf_cut]
  dsimp only
  rw [takeWhile_cut (isPart_of_digit (radixOf_le t))]

/-- No exponent begins with anything but its mark. -/
theorem exponent?_of_ne (h : c ≠ 'e' ∧ c ≠ 'E') (t : Text) : exponent? (c :: t) = none := by
  simp [exponent?, h]

/-- An exponent without a sign is the number its digits write, if there are any. -/
theorem exponent?_unsigned (mark : c = 'e' ∨ c = 'E') (unsigned : Unsigned t) :
    exponent? (c :: t) =
      if (t.takeWhile Char.isDigit).isEmpty then none
      else some (natOfDigits 10 (t.takeWhile Char.isDigit) : ℤ) := by
  cases t with
  | nil => rcases mark with rfl | rfl <;> rfl
  | cons s t =>
    have other := unsigned s rfl
    rcases mark with rfl | rfl <;> simp [exponent?, other]

theorem exponent?_cut (t : Text) : exponent? (t.takeWhile isPart) = exponent? t := by
  have digits := takeWhile_cut isPart_of_isDigit
  cases t with
  | nil => rfl
  | cons c t =>
    by_cases mark : c = 'e' ∨ c = 'E'
    · have front : (c :: t).takeWhile isPart = c :: t.takeWhile isPart := by
        rcases mark with rfl | rfl <;> rfl
      rw [front]
      by_cases unsigned : Unsigned t
      · have same : Unsigned (t.takeWhile isPart) := fun s head => unsigned s (head?_takeWhile head)
        rw [exponent?_unsigned mark unsigned, exponent?_unsigned mark same, digits]
      · obtain ⟨s, rest, rfl, sign⟩ := exists_sign unsigned
        rcases mark with rfl | rfl <;> rcases sign with rfl | rfl <;>
          simp [exponent?, isPart, digits]
    · rw [not_or] at mark
      rw [exponent?_of_ne mark]
      cases part : isPart c with
      | true => rw [List.takeWhile_cons_of_pos part, exponent?_of_ne mark]
      | false =>
        rw [List.takeWhile_cons_of_neg (by simp [part])]
        rfl

theorem scientific_cut (t : Text) :
    Scientific.ofText (t.takeWhile isPart) = Scientific.ofText t := by
  unfold Scientific.ofText
  rw [takeWhile_cut isPart_of_isDigit, dropWhile_cut isPart_of_isDigit]
  cases t.dropWhile Char.isDigit with
  | nil => rfl
  | cons c rest =>
    by_cases point : c = '.'
    · subst point
      have front : ('.' :: rest).takeWhile isPart = '.' :: rest.takeWhile isPart := rfl
      rw [front]
      simp only [takeWhile_cut isPart_of_isDigit, dropWhile_cut isPart_of_isDigit, exponent?_cut]
    · have behind := exponent?_cut (c :: rest)
      cases part : isPart c with
      | true =>
        rw [List.takeWhile_cons_of_pos part] at behind ⊢
        simp [point, behind]
      | false =>
        rw [List.takeWhile_cons_of_neg (by simp [part])] at behind ⊢
        simp [point, behind]

/-! ## What stands behind -/

/-- The 32-bit pattern that a numeral reads as. -/
def bits (n : Numeral) : UInt32 :=
  let s := Scientific.ofText n.body
  if (radixOf n.body).1 = 10 ∧ ¬ s.isWhole then truncate (n.signed (s.toFloat?.getD 0))
  else n.signed (wholeValue n.body).toUInt32

theorem toBits_eq (t : Text) : toBits t = (ofText t).bits := rfl

/-- **Only the numeral is read**, and not what it does not go on with. -/
theorem bits_cut (n : Numeral) : n.cut.bits = n.bits := by
  unfold bits cut
  dsimp only
  rw [scientific_cut, wholeValue_cut, radixOf_cut]
  rfl

theorem Stops.not_part (stops : Stops rest) (first : rest.head? = some c) : isPart c = false := by
  obtain ⟨other, letter⟩ := stops c first
  simp only [List.mem_cons, not_or] at other
  simp [isPart, letter, other]

theorem Stops.unsigned (stops : Stops rest) : Unsigned rest := by
  intro c first
  have other := (stops c first).1
  constructor <;> rintro rfl <;> exact absurd other (by decide)

theorem Stops.takeWhile_append (stops : Stops rest) (t : Text) :
    (t ++ rest).takeWhile isPart = t.takeWhile isPart := by
  induction t with
  | nil =>
    cases rest with
    | nil => rfl
    | cons c rest => exact List.takeWhile_cons_of_neg (by simp [stops.not_part rfl])
  | cons c t ih => rw [List.cons_append, List.takeWhile_cons, List.takeWhile_cons, ih]

theorem Stops.plain (stops : Stops rest) : Stops (plain rest) := by
  cases rest with
  | nil => exact stops
  | cons c rest =>
    have other := (stops c rfl).1
    simp only [List.mem_cons, not_or] at other
    have first : Numeral.plain (c :: rest) = c :: Numeral.plain rest :=
      List.filter_cons_of_pos (by simp [other])
    rw [first]
    intro c' head
    exact stops c' head

/-- **A numeral is cut before what it does not go on with**, even where it is only a sign. -/
theorem cut_append (stops : Stops rest) (t : Text) :
    (ofText (t ++ rest)).cut = (ofText t).cut := by
  have behind := stops.plain
  have kept : plain (t ++ rest) = plain t ++ plain rest := List.filter_append ..
  have same (negative : Bool) (body : Text) :
      cut ⟨negative, body ++ plain rest⟩ = cut ⟨negative, body⟩ :=
    congrArg (Numeral.mk negative) (behind.takeWhile_append body)
  by_cases unsigned : Unsigned (plain t)
  · -- an empty text could go on with a sign, but not with this one
    have unsigned' : Unsigned (plain t ++ plain rest) := by
      cases front : plain t with
      | nil => exact behind.unsigned
      | cons c body =>
        rw [front] at unsigned
        exact unsigned
    rw [ofText_unsigned kept unsigned', ofText_unsigned rfl unsigned]
    exact same false (plain t)
  · obtain ⟨s, body, front, sign⟩ := exists_sign unsigned
    rw [front] at kept
    rw [ofText_signed kept sign, ofText_signed front sign]
    exact same _ body

/-- **What stands behind a numeral is not read.** -/
theorem toBits_append (stops : Stops rest) (t : Text) : toBits (t ++ rest) = toBits t := by
  rw [toBits_eq, toBits_eq, ← bits_cut, cut_append stops, bits_cut]

end Numeral

end LineScript
