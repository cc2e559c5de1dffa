import LineScript.Proofs.Number.Words
/-!
# Decimals as text, in machine words

Reading a text and writing a decimal fit machine words as well (`parse_eq`,
`render_eq`). A reader gives up at the seventeenth digit that counts before the
point, and after it only takes digits while there are fifteen at most; so what
it has read never takes more than seventeen.
-/

namespace LineScript

namespace Decimal

namespace Words

variable {n : Nat}

/-! ## Counting digits -/

/-- How many digits a number takes, zero taking none. -/
structure Takes (n count : Nat) : Prop where
  below : n < 10 ^ count
  above : 0 < count → 10 ^ (count - 1) ≤ n

theorem takes_zero : Takes 0 0 := ⟨by decide, fun pos => absurd pos (Nat.lt_irrefl 0)⟩

/-- One digit more takes one digit more. -/
theorem takes_push {count digit : Nat} (h : Takes n count) (less : digit < 10)
    (some : n * 10 + digit ≠ 0) : Takes (n * 10 + digit) (count + 1) := by
  obtain ⟨below, above⟩ := h
  refine ⟨by rw [Nat.pow_succ]; omega, fun _ => ?_⟩
  rw [Nat.add_sub_cancel]
  cases count with
  | zero => rw [Nat.pow_zero]; omega
  | succ count =>
    have least : 10 ^ count ≤ n := above (Nat.succ_pos count)
    rw [Nat.pow_succ]
    omega

/-- A number takes at most so many digits if it is below that power. -/
theorem takes_le_iff {count : Nat} (h : Takes n count) (k : Nat) : count ≤ k ↔ n < 10 ^ k := by
  constructor
  · intro le
    exact Nat.lt_of_lt_of_le h.below (Nat.pow_le_pow_right (by decide) le)
  · intro less
    refine Nat.le_of_not_lt fun more => ?_
    have least : 10 ^ k ≤ 10 ^ (count - 1) := Nat.pow_le_pow_right (by decide) (by omega)
    have := h.above (by omega)
    omega

/-- As many as are written for it, unless it is zero. -/
theorem takes_unique {count : Nat} (h : Takes n count) (some : n ≠ 0) :
    (Text.ofNat n).length = count := by
  have written (k : Nat) (pos : 0 < k) : (Text.ofNat n).length ≤ k ↔ n < 10 ^ k :=
    Nat.length_toDigits_le_iff (by decide) pos
  have counted : 0 < count := by
    refine Nat.pos_of_ne_zero fun zero => ?_
    have below := h.below
    rw [zero, Nat.pow_zero] at below
    omega
  have length : 0 < (Text.ofNat n).length := List.length_pos_iff.2 Nat.toDigits_ne_nil
  refine Nat.le_antisymm ((written count counted).2 h.below) ?_
  exact (takes_le_iff h _).2 ((written _ length).1 (Nat.le_refl _))

/-- Counts digits by dropping them, beginning from `count`. -/
def digitsFrom (count : Nat) (n : Int) : Except Overflow Nat := do
  if 0 < n then
    let count ← plus count 1
    let rest ← known (quotient n 10)
    digitsFrom count rest.1
  else return count
termination_by n.toNat
decreasing_by
  have dropped : rest.1 = n.tdiv 10 := eq_of_quotient rest.2
  rw [Int.tdiv_eq_ediv_of_nonneg (by omega)] at dropped
  omega

/-- The number of digits. -/
def digits (n : Int) : Except Overflow Nat := do
  digitsFrom 0 (← word n.natAbs)

/-- The loop ends with what the number takes. -/
theorem digitsFrom_eq (k : Nat) (less : n < 10 ^ k) (small : n < 2 ^ 127) (start : Nat)
    (room : start + k < 2 ^ 32) : ∃ count, digitsFrom start n = .ok (start + count) ∧
      Takes n count := by
  induction k generalizing n start with
  | zero =>
    obtain rfl : n = 0 := by omega
    refine ⟨0, ?_, takes_zero⟩
    unfold digitsFrom
    exact if_neg (by decide)
  | succ k ih =>
    unfold digitsFrom
    by_cases some : n = 0
    · subst some
      exact ⟨0, if_neg (by decide), takes_zero⟩
    · rw [if_pos (by omega), plus_eq (by omega), quotient_eq (by omega) (by decide)]
      simp only [known_bind, ok_bind]
      rw [Nat.pow_succ] at less
      obtain ⟨count, counted, takes⟩ := ih (n := n / 10) (by omega) (by omega) (start + 1) (by omega)
      refine ⟨count + 1, ?_, ?_⟩
      · rw [Nat.add_comm count, ← Nat.add_assoc]
        exact counted
      · have split : n / 10 * 10 + n % 10 = n := by omega
        rw [← split]
        exact takes_push takes (Nat.mod_lt n (by decide)) (by omega)

/-- **Counting digits fits.** -/
theorem digits_eq (small : n < 2 ^ 127) : ∃ count, digits n = .ok count ∧ Takes n count := by
  have room : (2 : Nat) ^ 127 < 10 ^ 39 := by decide
  obtain ⟨count, counted, takes⟩ := digitsFrom_eq 39 (Nat.lt_trans small room) small 0 (by decide)
  rw [Nat.zero_add] at counted
  refine ⟨count, ?_, takes⟩
  rw [digits, Int.natAbs_natCast, word_natCast small]
  exact counted

/-! ## Writing -/

/-- How many digits stand before the point. -/
def integerLen (d : Decimal) : Except Overflow Nat := do
  let whole ← quotient d.value (← power d.scale)
  let magnitude ← word whole.natAbs
  if magnitude = 0 then return 1
  digits magnitude

/-- All digits of a decimal. -/
def render (d : Decimal) : Except Overflow Text := do
  let sign := Numeral.sign (d.value < 0)
  let magnitude ← word d.value.natAbs
  if d.scale = 0 then return sign ++ Text.ofNat magnitude.toNat
  let unit ← power d.scale
  let whole ← quotient magnitude unit
  let fraction ← remainder magnitude unit
  return sign ++ Text.ofNat whole.toNat ++
    '.' :: Text.padLeft d.scale '0' (Text.ofNat fraction.toNat)

section Writing

variable {d : Decimal}

theorem value_small (h : d.Canonical) : d.value.natAbs < 2 ^ 127 :=
  Nat.lt_trans h.small (by decide)

theorem power_scale (h : d.Canonical) : power d.scale = .ok (10 ^ d.scale) :=
  power_eq (Nat.le_trans h.short (by decide))

theorem unit_ne_zero (d : Decimal) : (10 : Int) ^ d.scale ≠ 0 := Int.pow_ne_zero (by decide)

theorem integerLen_eq (h : d.Canonical) : integerLen d = .ok d.integerLen := by
  have small := natAbs_tdiv_lt (10 ^ d.scale) (value_small h)
  have whole : (d.value.tdiv (10 ^ d.scale)).natAbs = d.value.natAbs / 10 ^ d.scale := by
    have ten : (10 : Int).natAbs = 10 := rfl
    rw [Int.natAbs_tdiv, Int.natAbs_pow, ten]
    rfl
  rw [integerLen, power_scale h]
  simp only [ok_bind, quotient_eq (value_small h) (unit_ne_zero d), word_natCast small]
  rw [whole] at small ⊢
  rw [Decimal.integerLen]
  by_cases none : d.value.natAbs / 10 ^ d.scale = 0
  · rw [none, if_pos Int.natCast_zero]
    rfl
  · obtain ⟨count, counted, takes⟩ := digits_eq small
    rw [if_neg (by omega), takes_unique takes none]
    exact counted

theorem render_eq (h : d.Canonical) : render d = .ok d.render := by
  have small : (d.value.natAbs : Int).natAbs < 2 ^ 127 := by
    rw [Int.natAbs_natCast]
    exact value_small h
  have unit : (10 : Int) ^ d.scale = (10 ^ d.scale : Nat) := by
    rw [Int.natCast_pow]
    rfl
  rw [render, word_natCast (value_small h), power_scale h, Decimal.render_eq]
  simp only [ok_bind, quotient_eq small (unit_ne_zero d), remainder_eq small (unit_ne_zero d)]
  rw [unit, ← Int.ofNat_tdiv, ← Int.ofNat_tmod]
  split
  · next none =>
    rw [List.append_nil, wholeDigits, none, Nat.pow_zero, Nat.div_one]
    rfl
  · rw [← List.append_assoc]
    rfl

end Writing

/-! ## Reading -/

/-- What has been read of a numeral: its value and scale, how many whole digits
count, and whether the point was passed. -/
structure Reading where
  value : Int
  scale : Nat
  count : Nat
  fraction : Bool

/-- One more digit at the end of a value. -/
def push (value digit : Int) : Except Overflow Int := do
  word ((← word (value * 10)) + digit)

/-- Counts a whole digit, from the first one that is not zero. -/
def countDigit (value : Int) (count : Nat) : Except Overflow Nat :=
  if value = 0 then .ok count else plus count 1

/-- Reads on as long as the numeral does; `none` if it has too many whole digits. -/
def readFrom (r : Reading) : Text → Except Overflow (Option Reading)
  | [] => return some r
  | c :: t => do
    if c.isDigit then
      let digit ← word (c.toNat - '0'.toNat)
      if r.fraction then
        if (← digits r.value) < precision ∧ r.scale < precision then
          let value ← push r.value digit
          let scale ← plus r.scale 1
          readFrom { r with value, scale } t
        else readFrom r t
      else
        let value ← push r.value digit
        let count ← countDigit value r.count
        if precision < count then return none
        readFrom { r with value, count } t
    else if c = '.' ∧ r.fraction = false then readFrom { r with fraction := true } t
    else return some r

/-- The decimal numeral a text begins with. -/
def parse (t : Text) : Except Overflow (Option Decimal) := do
  let n := Numeral.ofText t
  match ← readFrom ⟨0, 0, 0, false⟩ n.body with
  | none => return none
  | some r =>
    if n.negative then normalize (← word (-r.value)) r.scale
    else normalize r.value r.scale

section Reading

variable {c : Char} {t : Text} {count : Nat}

/-- The value of a digit fits. -/
theorem word_digit (digit : c.isDigit = true) :
    word ((c.toNat : Int) - '0'.toNat) = .ok (Numeral.digitValue c : Nat) := by
  have range := Numeral.isDigit_iff.1 digit
  have value : ((c.toNat : Int) - '0'.toNat) = (Numeral.digitValue c : Nat) := by
    rw [Numeral.digitValue_of_isDigit digit]
    omega
  have less := Numeral.digitValue_lt digit
  rw [value, word_eq (by omega)]

/-- A fraction digit leaves no more digits than there are. -/
theorem pushDigit_lt (digit : c.isDigit = true) {read : Nat × Nat} (small : read.1 < limit) :
    (pushDigit read c).1 < limit := by
  have less := Numeral.digitValue_lt digit
  have tenfold : limit = limit / 10 * 10 := by decide
  unfold pushDigit
  split
  · dsimp only
    omega
  · exact small

/-- There is room for a fraction digit as long as fifteen digits are taken at most. -/
theorem digits_lt_iff (takes : Takes n count) : count < precision ↔ n < limit / 10 := by
  have room : limit / 10 = 10 ^ 15 := by decide
  rw [room, ← takes_le_iff takes 15]
  exact Nat.lt_succ_iff

/-- One digit more fits, as long as there are no more than there can be. -/
theorem push_eq (digit : c.isDigit = true) (small : n < limit) :
    push n (Numeral.digitValue c : Nat) = .ok ((n * 10 + Numeral.digitValue c : Nat) : Int) := by
  have less := Numeral.digitValue_lt digit
  have room : limit * 10 < 2 ^ 127 := by decide
  rw [push, word_eq (by omega), ok_bind, word_eq (by omega)]
  rfl

/-- **Fraction digits are read as they are pushed**, up to the first character
that is none. -/
theorem readFrom_fraction (t : Text) {read : Nat × Nat} (small : read.1 < limit) (count : Nat) :
    ∃ after : Nat × Nat, after = (t.takeWhile Char.isDigit).foldl pushDigit read ∧
      after.1 < limit ∧
      readFrom ⟨read.1, read.2, count, true⟩ t = .ok (some ⟨after.1, after.2, count, true⟩) := by
  induction t generalizing read with
  | nil => exact ⟨read, rfl, small, rfl⟩
  | cons c t ih =>
    rw [readFrom]
    by_cases digit : c.isDigit = true
    · obtain ⟨taken, counted, takes⟩ := digits_eq (Nat.lt_trans small (by decide))
      obtain ⟨after, pushed, less, reads⟩ := ih (pushDigit_lt digit small)
      refine ⟨after, ?_, less, ?_⟩
      · rw [pushed, List.takeWhile_cons_of_pos digit, List.foldl_cons]
      · rw [if_pos digit, word_digit digit]
        simp only [ok_bind, if_true, counted, digits_lt_iff takes]
        rw [pushDigit] at reads
        split
        · next room =>
          rw [if_pos room] at reads
          have short : read.2 + 1 < 2 ^ 32 := by
            have least : precision + 1 < 2 ^ 32 := by decide
            omega
          rw [push_eq digit small, ok_bind, plus_eq short, ok_bind]
          exact reads
        · next full =>
          rw [if_neg full] at reads
          exact reads
    · refine ⟨read, ?_, small, ?_⟩
      · rw [List.takeWhile_cons_of_neg digit]
        rfl
      · rw [if_neg digit, if_neg (by simp)]
        rfl

/-- What follows the whole digits is read as the fraction, if it begins with a point. -/
theorem readFrom_point (t : Text) (small : n < limit) (count : Nat) :
    ∃ (after : Nat × Nat) (fraction : Bool),
      after = (fractionOf (t.dropWhile Char.isDigit)).foldl pushDigit (n, 0) ∧ after.1 < limit ∧
      readFrom ⟨n, 0, count, false⟩ (t.dropWhile Char.isDigit) =
        .ok (some ⟨after.1, after.2, count, fraction⟩) := by
  unfold fractionOf
  split
  · next rest same =>
    have start : ((n, 0) : Nat × Nat).1 < limit := small
    obtain ⟨after, pushed, less, reads⟩ := readFrom_fraction rest start count
    rw [same]
    exact ⟨after, true, pushed, less, reads⟩
  · next other =>
    refine ⟨(n, 0), false, rfl, small, ?_⟩
    cases same : t.dropWhile Char.isDigit with
    | nil => rfl
    | cons c rest =>
      have stop : ¬ c.isDigit = true := by
        have head := List.head?_dropWhile_not Char.isDigit t
        rw [same] at head
        exact Bool.eq_false_iff.1 head
      have plain : c ≠ '.' := fun point => other rest (point ▸ same)
      rw [readFrom, if_neg stop, if_neg fun point => plain point.1]
      rfl

/-- What is counted is what the value takes. -/
theorem countDigit_eq (digit : c.isDigit = true) (takes : Takes n count) (small : n < limit) :
    ∃ after, Takes (n * 10 + Numeral.digitValue c) after ∧
      countDigit (n * 10 + Numeral.digitValue c : Nat) count = .ok after := by
  by_cases zero : n * 10 + Numeral.digitValue c = 0
  · have none : n = 0 := by omega
    refine ⟨count, ?_, ?_⟩
    · rw [zero]
      exact none ▸ takes
    · rw [zero]
      exact if_pos Int.natCast_zero
  · have le : count ≤ precision := (takes_le_iff takes precision).2 small
    have short : count + 1 < 2 ^ 32 := by
      have least : precision + 1 < 2 ^ 32 := by decide
      omega
    refine ⟨count + 1, takes_push takes (Numeral.digitValue_lt digit) zero, ?_⟩
    rw [countDigit, if_neg (by omega), plus_eq short]

/-- **Whole digits are read as they count**: too many of them end the reading,
and else it goes on behind them. -/
theorem readFrom_whole (t : Text) (takes : Takes n count) (small : n < limit) :
    let whole := Nat.ofDigitChars 10 (t.takeWhile Char.isDigit) n
    (limit ≤ whole → readFrom ⟨n, 0, count, false⟩ t = .ok none) ∧
      (whole < limit → ∃ after, readFrom ⟨n, 0, count, false⟩ t =
        readFrom ⟨whole, 0, after, false⟩ (t.dropWhile Char.isDigit)) := by
  induction t generalizing n count with
  | nil => exact ⟨fun large => absurd small (Nat.not_lt.2 large), fun _ => ⟨count, rfl⟩⟩
  | cons c t ih =>
    by_cases digit : c.isDigit = true
    · have value : 10 * n + (c.toNat - '0'.toNat) = n * 10 + Numeral.digitValue c := by
        rw [Numeral.digitValue_of_isDigit digit, Nat.mul_comm]
      obtain ⟨after, taken, counted⟩ := countDigit_eq digit takes small
      have step : readFrom ⟨n, 0, count, false⟩ (c :: t) =
          if precision < after then .ok none
          else readFrom ⟨(n * 10 + Numeral.digitValue c : Nat), 0, after, false⟩ t := by
        rw [readFrom, if_pos digit, word_digit digit, ok_bind, if_neg Bool.false_ne_true,
          push_eq digit small, ok_bind, counted, ok_bind]
        rfl
      rw [List.takeWhile_cons_of_pos digit, List.dropWhile_cons_of_pos digit,
        Nat.ofDigitChars_cons, value, step]
      -- once the digits are too many, those that follow do not make the number smaller
      by_cases fits : n * 10 + Numeral.digitValue c < limit
      · rw [if_neg (Nat.not_lt.2 ((takes_le_iff taken precision).2 fits))]
        exact ih taken fits
      · have many : precision < after :=
          Nat.lt_of_not_le fun le => fits ((takes_le_iff taken precision).1 le)
        have grown : n * 10 + Numeral.digitValue c ≤
            Nat.ofDigitChars 10 (t.takeWhile Char.isDigit) (n * 10 + Numeral.digitValue c) :=
          Numeral.le_ofDigitChars (by decide) _ _
        rw [if_pos many]
        exact ⟨fun _ => rfl, fun less => absurd (Nat.lt_of_le_of_lt grown less) fits⟩
    · rw [List.takeWhile_cons_of_neg digit, List.dropWhile_cons_of_neg digit]
      exact ⟨fun large => absurd small (Nat.not_lt.2 large), fun _ => ⟨count, rfl⟩⟩

/-- **Reading fits**, whatever the text. -/
theorem parse_eq (t : Text) : parse t = .ok (Decimal.parse t) := by
  generalize same : Numeral.ofText t = n
  have digits : Text.Digits (n.body.takeWhile Char.isDigit) :=
    fun _ mem => List.mem_takeWhile_imp mem
  have zero : (0 : Nat) < limit := by decide
  obtain ⟨many, few⟩ := readFrom_whole n.body takes_zero zero
  rw [parse, Decimal.parse_eq, same, Numeral.natOfDigits_eq digits]
  by_cases large : limit ≤ Nat.ofDigitChars 10 (n.body.takeWhile Char.isDigit) 0
  · have ends : readFrom ⟨0, 0, 0, false⟩ n.body = .ok none := many large
    rw [ends, if_pos large]
    rfl
  · obtain ⟨count, reads⟩ := few (Nat.lt_of_not_le large)
    obtain ⟨after, fraction, pushed, less, ends⟩ :=
      readFrom_point n.body (Nat.lt_of_not_le large) count
    have small : after.1 < 2 ^ 127 := Nat.lt_trans less (by decide)
    have all : readFrom ⟨0, 0, 0, false⟩ n.body =
        .ok (some ⟨after.1, after.2, count, fraction⟩) := reads.trans ends
    rw [all, if_neg large, ← pushed, ok_bind]
    cases n.negative with
    | true =>
      have negated : (-(after.1 : Int)).natAbs < 2 ^ 127 := by omega
      dsimp only
      rw [if_pos rfl, if_pos rfl, word_eq negated, ok_bind]
      exact normalize_eq _ negated
    | false =>
      have plain : (after.1 : Int).natAbs < 2 ^ 127 := by rwa [Int.natAbs_natCast]
      exact normalize_eq _ plain

end Reading

end Words

end Decimal

end LineScript
