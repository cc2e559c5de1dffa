import LineScript.Arithmetic
import LineScript.Proofs.Number.Decimal
/-!
# Decimals in machine words

The decimals are computed with here as a machine computes with them: every
value on the way has to fit a signed word of 128 bits, every count of places
an unsigned one of 32, and only the powers of ten up to the twentieth are
there. On canonical decimals nothing runs over, and the result is the one that
the integers give (`basic_eq`): a shift to a common scale stays below
`10 ^ 32` there, and the numerator of a quotient below `10 ^ 36`.
-/

namespace LineScript

namespace Decimal

namespace Words

/-- What can go wrong in machine words. -/
inductive Overflow where
  | value | places | power | divisor
deriving DecidableEq, Repr

/-! ## Words -/

/-- A value, which has to fit a signed word of 128 bits. -/
def word (n : Int) : Except Overflow Int :=
  if -2 ^ 127 ≤ n ∧ n < 2 ^ 127 then .ok n else .error .value

/-- The sum of two counts, which has to fit an unsigned word of 32 bits. -/
def plus (m n : Nat) : Except Overflow Nat := if m + n < 2 ^ 32 then .ok (m + n) else .error .places

/-- The difference of two counts, which must not be below zero. -/
def minus (m n : Nat) : Except Overflow Nat := if n ≤ m then .ok (m - n) else .error .places

/-- A power of ten. -/
def power (n : Nat) : Except Overflow Int := if n ≤ 20 then word (10 ^ n) else .error .power

/-- The truncated quotient. -/
def quotient (x y : Int) : Except Overflow Int := if y = 0 then .error .divisor else word (x.tdiv y)

/-- Its remainder, which a machine only has where the quotient fits. -/
def remainder (x y : Int) : Except Overflow Int := do
  let _ ← quotient x y
  word (x.tmod y)

/-- A computation whose result is known to be its result, for loops that end
because of it. -/
def known {α : Type} (x : Except Overflow α) : Except Overflow {a : α // x = .ok a} :=
  match x with
  | .ok a => .ok ⟨a, rfl⟩
  | .error e => .error e

theorem known_bind {α β : Type} (x : Except Overflow α) (f : α → Except Overflow β) :
    (known x >>= fun a => f a.1) = x >>= f := by
  cases x with
  | ok a => rfl
  | error e => rfl

variable {m n : Nat} {x y : Int}

theorem word_eq (small : x.natAbs < 2 ^ 127) : word x = .ok x :=
  if_pos (by omega)

theorem word_natCast (small : n < 2 ^ 127) : word n = .ok (n : Int) :=
  word_eq (by rwa [Int.natAbs_natCast])

theorem plus_eq (small : m + n < 2 ^ 32) : plus m n = .ok (m + n) := if_pos small

theorem minus_eq (le : n ≤ m) : minus m n = .ok (m - n) := if_pos le

theorem eq_of_minus {k : Nat} (h : minus m n = .ok k) : k + n = m := by
  unfold minus at h
  split at h
  · cases h
    omega
  · cases h

theorem power_eq (le : n ≤ 20) : power n = .ok (10 ^ n) := by
  have small : ((10 : Int) ^ n).natAbs < 2 ^ 127 := by
    rw [Int.natAbs_pow]
    exact Nat.lt_of_le_of_lt (Nat.pow_le_pow_right (by decide) le) (by decide)
  rw [power, if_pos le, word_eq small]

theorem natAbs_tdiv_lt (y : Int) (small : x.natAbs < 2 ^ 127) : (x.tdiv y).natAbs < 2 ^ 127 := by
  rw [Int.natAbs_tdiv]
  exact Nat.lt_of_le_of_lt (Nat.div_le_self _ _) small

theorem natAbs_tmod_lt (y : Int) (small : x.natAbs < 2 ^ 127) : (x.tmod y).natAbs < 2 ^ 127 := by
  rw [Int.natAbs_tmod]
  exact Nat.lt_of_le_of_lt (Nat.mod_le _ _) small

theorem quotient_eq (small : x.natAbs < 2 ^ 127) (divisor : y ≠ 0) :
    quotient x y = .ok (x.tdiv y) := by
  rw [quotient, if_neg divisor, word_eq (natAbs_tdiv_lt y small)]

theorem eq_of_quotient {z : Int} (h : quotient x y = .ok z) : z = x.tdiv y := by
  unfold quotient word at h
  split at h
  · cases h
  · split at h
    · cases h
      rfl
    · cases h

theorem remainder_eq (small : x.natAbs < 2 ^ 127) (divisor : y ≠ 0) :
    remainder x y = .ok (x.tmod y) := by
  rw [remainder, quotient_eq small divisor]
  exact word_eq (natAbs_tmod_lt y small)

/-- A computation that goes well goes on with its result. -/
theorem ok_bind {α β : Type} (a : α) (f : α → Except Overflow β) : (.ok a >>= f) = f a := by
  simp only [bind, Except.bind]

/-! ## Normal forms -/

/-- Drops a fraction digit, as long as that is due. -/
def normalize (value : Int) (scale : Nat) : Except Overflow (Option Decimal) := do
  let magnitude ← word value.natAbs
  let last ← remainder value 10
  if 0 < scale ∧ (precision < scale ∨ limit ≤ magnitude ∨ last = 0) then
    let value ← quotient value 10
    let fewer ← known (minus scale 1)
    normalize value fewer.1
  else if limit ≤ magnitude then return none
  else return some ⟨value, scale⟩
termination_by scale
decreasing_by
  have := eq_of_minus fewer.2
  omega

/-- **Normalising fits**, whatever value it begins with. -/
theorem normalize_eq (scale : Nat) (small : x.natAbs < 2 ^ 127) :
    normalize x scale = .ok (Decimal.normalize x scale) := by
  induction scale generalizing x with
  | zero =>
    unfold normalize Decimal.normalize
    rw [word_natCast small, remainder_eq small (by decide)]
    simp only [ok_bind, Nat.lt_irrefl, false_and, if_false, Int.ofNat_le]
    by_cases large : limit ≤ x.natAbs
    · rw [if_pos large, if_neg (Nat.not_lt.2 large)]
      rfl
    · rw [if_neg large, if_pos (Nat.not_le.1 large)]
      rfl
  | succ scale ih =>
    unfold normalize Decimal.normalize
    rw [word_natCast small, remainder_eq small (by decide), quotient_eq small (by decide)]
    simp only [ok_bind, Nat.succ_pos, true_and, Int.ofNat_le, known_bind,
      minus_eq (Nat.succ_pos scale)]
    split
    · exact ih (natAbs_tdiv_lt 10 small)
    · next kept => exact if_neg fun large => kept (.inr (.inl large))

/-! ## Arithmetic -/

section Arithmetic

variable (a b : Decimal)

/-- The two values over the larger of the two scales, and that scale. -/
def align : Except Overflow (Int × Int × Nat) := do
  let scale := max a.scale b.scale
  let x ← word (a.value * (← power (← minus scale a.scale)))
  let y ← word (b.value * (← power (← minus scale b.scale)))
  return (x, y, scale)

/-- The sum. -/
def add : Except Overflow (Option Decimal) := do
  let (x, y, scale) ← align a b
  normalize (← word (x + y)) scale

/-- The difference. -/
def sub : Except Overflow (Option Decimal) := do
  let (x, y, scale) ← align a b
  normalize (← word (x - y)) scale

/-- The product. -/
def mul : Except Overflow (Option Decimal) := do
  normalize (← word (a.value * b.value)) (← plus a.scale b.scale)

/-- The quotient. -/
def div : Except Overflow (Option Decimal) := do
  if b.value = 0 then return none
  let extra ← minus 20 b.scale
  let numerator ← word (a.value * (← power (← plus b.scale extra)))
  let denominator ← word (b.value * (← power a.scale))
  normalize (← quotient numerator denominator) extra

/-- The remainder. -/
def rem : Except Overflow (Option Decimal) := do
  let (x, y, scale) ← align a b
  if y = 0 then return none
  normalize (← remainder x y) scale

/-- How the two numbers compare. -/
def compare : Except Overflow Ordering := do
  let (x, y, _) ← align a b
  return Ord.compare x y

/-- A basic operation. -/
def basic : Arithmetic.Basic → Except Overflow (Option Decimal)
  | .add => add a b
  | .sub => sub a b
  | .mul => mul a b
  | .div => div a b
  | .mod => rem a b

variable {a b}

/-- A shifted value has at most as many digits more as it is shifted by. -/
theorem natAbs_shift_lt {shift : Nat} (small : x.natAbs < limit) (le : shift ≤ n) :
    (x * 10 ^ shift).natAbs < limit * 10 ^ n := by
  have power : 10 ^ shift ≤ 10 ^ n := Nat.pow_le_pow_right (by decide) le
  rw [Int.natAbs_mul, Int.natAbs_pow]
  exact Nat.mul_lt_mul_of_lt_of_le small power (Nat.pow_pos (by decide))

/-- **Shifting to a common scale fits**, and leaves room for a sum. -/
theorem align_eq (ha : a.Canonical) (hb : b.Canonical) :
    align a b = .ok (a.align b) ∧ (a.align b).1.natAbs < 2 ^ 126 ∧
      (a.align b).2.1.natAbs < 2 ^ 126 := by
  -- sixteen digits, and sixteen more from the shift
  have short : max a.scale b.scale ≤ precision := Nat.max_le.2 ⟨ha.short, hb.short⟩
  have room : limit * 10 ^ precision ≤ 2 ^ 126 := by decide
  have left : max a.scale b.scale - a.scale ≤ precision := by omega
  have right : max a.scale b.scale - b.scale ≤ precision := by omega
  have x := Nat.lt_of_lt_of_le (natAbs_shift_lt ha.small left) room
  have y := Nat.lt_of_lt_of_le (natAbs_shift_lt hb.small right) room
  have twenty : precision ≤ 20 := by decide
  refine ⟨?_, x, y⟩
  rw [align, minus_eq (Nat.le_max_left _ _), minus_eq (Nat.le_max_right _ _)]
  simp only [ok_bind, power_eq (Nat.le_trans left twenty), power_eq (Nat.le_trans right twenty)]
  rw [word_eq (by omega), word_eq (by omega)]
  rfl

theorem add_eq (ha : a.Canonical) (hb : b.Canonical) : add a b = .ok (a.add b) := by
  obtain ⟨aligned, x, y⟩ := align_eq ha hb
  have small : ((a.align b).1 + (a.align b).2.1).natAbs < 2 ^ 127 := by omega
  rw [add, aligned]
  simp only [ok_bind, word_eq small]
  exact normalize_eq _ small

theorem sub_eq (ha : a.Canonical) (hb : b.Canonical) : sub a b = .ok (a.sub b) := by
  obtain ⟨aligned, x, y⟩ := align_eq ha hb
  have small : ((a.align b).1 - (a.align b).2.1).natAbs < 2 ^ 127 := by omega
  rw [sub, aligned]
  simp only [ok_bind, word_eq small]
  exact normalize_eq _ small

theorem mul_eq (ha : a.Canonical) (hb : b.Canonical) : mul a b = .ok (a.mul b) := by
  have small : (a.value * b.value).natAbs < 2 ^ 127 := by
    have room : limit * limit ≤ 2 ^ 127 := by decide
    have product : a.value.natAbs * b.value.natAbs < limit * limit :=
      Nat.mul_lt_mul_of_lt_of_le ha.small (Nat.le_of_lt hb.small) (by decide)
    rw [Int.natAbs_mul]
    omega
  have short : a.scale + b.scale < 2 ^ 32 := by
    have least : precision + precision < 2 ^ 32 := by decide
    have := ha.short
    have := hb.short
    omega
  rw [mul, word_eq small, plus_eq short]
  exact normalize_eq _ small

theorem div_eq (ha : a.Canonical) (hb : b.Canonical) : div a b = .ok (a.div b) := by
  unfold div Decimal.div
  split
  · rfl
  · next divisor =>
    -- the numerator is shifted by twenty places, however many the divisor has
    have twenty : precision ≤ 20 := by decide
    have places : b.scale ≤ 20 := Nat.le_trans hb.short twenty
    have sum : b.scale + (20 - b.scale) = 20 := by omega
    have numerator : (a.value * 10 ^ 20).natAbs < 2 ^ 127 :=
      Nat.lt_trans (natAbs_shift_lt ha.small (Nat.le_refl 20)) (by decide)
    have denominator : (b.value * 10 ^ a.scale).natAbs < 2 ^ 127 :=
      Nat.lt_trans (natAbs_shift_lt hb.small (Nat.le_trans ha.short twenty)) (by decide)
    have nonzero : b.value * 10 ^ a.scale ≠ 0 :=
      Int.mul_ne_zero divisor (Int.pow_ne_zero (by decide))
    rw [minus_eq places]
    simp only [ok_bind]
    rw [plus_eq (by omega), sum]
    simp only [ok_bind, power_eq (Nat.le_refl 20), word_eq numerator,
      power_eq (Nat.le_trans ha.short twenty), word_eq denominator, quotient_eq numerator nonzero]
    exact normalize_eq _ (natAbs_tdiv_lt _ numerator)

theorem rem_eq (ha : a.Canonical) (hb : b.Canonical) : rem a b = .ok (a.rem b) := by
  obtain ⟨aligned, x, y⟩ := align_eq ha hb
  have left : (a.align b).1.natAbs < 2 ^ 127 := by omega
  rw [rem, aligned, Decimal.rem]
  simp only [ok_bind]
  split
  · rfl
  · next divisor =>
    rw [remainder_eq left divisor]
    exact normalize_eq _ (natAbs_tmod_lt _ left)

theorem compare_eq (ha : a.Canonical) (hb : b.Canonical) :
    compare a b = .ok (a.compare b) := by
  rw [compare, (align_eq ha hb).1]
  rfl

/-- **Every operation fits on canonical decimals.** -/
theorem basic_eq (op : Arithmetic.Basic) (ha : a.Canonical) (hb : b.Canonical) :
    basic a b op = .ok (Arithmetic.decimalBasic op a b) := by
  cases op with
  | add => exact add_eq ha hb
  | sub => exact sub_eq ha hb
  | mul => exact mul_eq ha hb
  | div => exact div_eq ha hb
  | mod => exact rem_eq ha hb

end Arithmetic

end Words

end Decimal

end LineScript
