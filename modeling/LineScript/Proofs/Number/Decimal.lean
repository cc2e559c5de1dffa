import LineScript.Number.Decimal
import LineScript.Proofs.Number.Digits
/-!
# Canonical decimals

A decimal is canonical if it keeps to sixteen digits and its fraction does not
end in a zero. Everything that normalises gives canonical decimals, and those
are their own normal forms; so a number has one canonical decimal
(`compare_eq_iff`), and that decimal one text, which reads back as it
(`parse_render`).
-/

namespace LineScript

namespace Decimal

variable {a b d : Decimal} {value : Int} {scale : Nat}

/-- A decimal that keeps to the digits there are, without a zero at the end of
its fraction. -/
structure Canonical (d : Decimal) : Prop where
  small : d.value.natAbs < limit
  short : d.scale ≤ precision
  reduced : 0 < d.scale → ¬ (10 : Int) ∣ d.value

/-! ## Normal forms -/

/-- **What is normalised is canonical.** -/
theorem canonical_of_normalize (h : normalize value scale = some d) : d.Canonical := by
  induction scale generalizing value with
  | zero =>
    rw [normalize] at h
    split at h
    · next small =>
      cases h
      exact ⟨small, Nat.zero_le _, fun pos => absurd pos (Nat.lt_irrefl 0)⟩
    · cases h
  | succ scale ih =>
    rw [normalize] at h
    split at h
    · exact ih h
    · next kept =>
      cases h
      rw [not_or, not_or] at kept
      obtain ⟨short, small, reduced⟩ := kept
      refine ⟨Nat.lt_of_not_le small, Nat.le_of_not_lt short, fun _ divides => reduced ?_⟩
      exact Int.tmod_eq_zero_of_dvd divides

/-- A canonical decimal is its own normal form. -/
theorem normalize_of_canonical (h : d.Canonical) : normalize d.value d.scale = some d := by
  obtain ⟨value, scale⟩ := d
  obtain ⟨small, short, reduced⟩ := h
  cases scale with
  | zero => exact if_pos small
  | succ scale =>
    refine if_neg ?_
    rw [not_or, not_or]
    refine ⟨Nat.not_lt.2 short, Nat.not_le.2 small, fun divides => ?_⟩
    exact reduced (Nat.succ_pos scale) (Int.dvd_of_tmod_eq_zero divides)

theorem canonical_zero : zero.Canonical := ⟨by decide, Nat.zero_le _, fun pos => nomatch pos⟩

theorem canonical_ofInt {n : Int} (h : ofInt n = some d) : d.Canonical :=
  canonical_of_normalize h

theorem canonical_parse {t : Text} (h : parse t = some d) : d.Canonical := by
  unfold parse at h
  dsimp only at h
  split at h
  · cases h
  · exact canonical_of_normalize h

theorem canonical_div (h : a.div b = some d) : d.Canonical := by
  unfold div at h
  split at h
  · cases h
  · exact canonical_of_normalize h

theorem canonical_rem (h : a.rem b = some d) : d.Canonical := by
  unfold rem at h
  dsimp only at h
  split at h
  · cases h
  · exact canonical_of_normalize h

/-! ## Comparing -/

/-- A shift to the larger scale shows in the last digit. -/
theorem ten_dvd_shift {shift : Nat} (pos : 0 < shift) (value : Int) :
    (10 : Int) ∣ value * 10 ^ shift := by
  obtain ⟨less, rfl⟩ := Nat.exists_eq_succ_of_ne_zero (Nat.pos_iff_ne_zero.1 pos)
  rw [Int.pow_succ, ← Int.mul_assoc]
  exact Int.dvd_mul_left _ _

/-- **Canonical decimals are equal as numbers only if they are the same.** -/
theorem compare_eq_iff (ha : a.Canonical) (hb : b.Canonical) : a.compare b = .eq ↔ a = b := by
  have values : a.compare b = .eq ↔
      a.value * 10 ^ (max a.scale b.scale - a.scale) =
        b.value * 10 ^ (max a.scale b.scale - b.scale) := by
    rw [compare, align]
    exact Int.compare_eq_eq
  rw [values]
  constructor
  · intro same
    -- the one with fewer fraction digits would give the other a zero at its end
    rcases Nat.lt_trichotomy a.scale b.scale with less | equal | more
    · rw [Nat.max_eq_right (Nat.le_of_lt less), Nat.sub_self, Int.pow_zero, Int.mul_one] at same
      have divides := ten_dvd_shift (Nat.sub_pos_of_lt less) a.value
      exact absurd (same ▸ divides) (hb.reduced (Nat.zero_lt_of_lt less))
    · rw [equal, Nat.max_self, Nat.sub_self, Int.pow_zero, Int.mul_one, Int.mul_one] at same
      obtain ⟨value, scale⟩ := a
      obtain ⟨value', scale'⟩ := b
      exact congr (congrArg Decimal.mk same) equal
    · rw [Nat.max_eq_left (Nat.le_of_lt more), Nat.sub_self, Int.pow_zero, Int.mul_one] at same
      have divides := ten_dvd_shift (Nat.sub_pos_of_lt more) b.value
      exact absurd (same.symm ▸ divides) (ha.reduced (Nat.zero_lt_of_lt more))
  · rintro rfl
    rfl

/-! ## Reading what was written -/

/-- The fraction digits of what follows the whole digits of a numeral. -/
def fractionOf (rest : Text) : Text :=
  match rest with
  | '.' :: rest => rest.takeWhile Char.isDigit
  | _ => []

/-- How a numeral is read: its whole digits first, and then those of its fraction. -/
theorem parse_eq (t : Text) :
    let n := Numeral.ofText t
    let whole := Numeral.natOfDigits 10 (n.body.takeWhile Char.isDigit)
    let read := (fractionOf (n.body.dropWhile Char.isDigit)).foldl pushDigit (whole, 0)
    parse t = if limit ≤ whole then none
      else normalize (if n.negative then -(read.1 : Int) else read.1) read.2 := rfl

/-- **Fraction digits are kept while there is room for them.** -/
theorem foldl_pushDigit {t : Text} (digits : t.Digits) {start places : Nat}
    (small : Nat.ofDigitChars 10 t start < limit) (short : places + t.length ≤ precision) :
    t.foldl pushDigit (start, places) = (Nat.ofDigitChars 10 t start, places + t.length) := by
  induction t generalizing start places with
  | nil => rfl
  | cons c t ih =>
    have digit := digits c List.mem_cons_self
    rw [List.length_cons] at short
    rw [Nat.ofDigitChars_cons] at small
    have grown : 10 * start + (c.toNat - '0'.toNat) ≤ Nat.ofDigitChars 10 t _ :=
      Numeral.le_ofDigitChars (by decide) t _
    have room : start < limit / 10 ∧ places < precision := by
      have tenfold : limit = 10 * (limit / 10) := by decide
      omega
    rw [List.foldl_cons, Nat.ofDigitChars_cons, List.length_cons, pushDigit, if_pos room,
      Numeral.digitValue_of_isDigit digit, Nat.mul_comm start,
      ih (fun c mem => digits c (List.mem_cons_of_mem _ mem)) small (by omega)]
    congr 1
    omega

/-- The digits of a decimal before its point. -/
def wholeDigits (d : Decimal) : Text := Text.ofNat (d.value.natAbs / 10 ^ d.scale)

/-- Those after its point. -/
def fractionDigits (d : Decimal) : Text :=
  Text.padLeft d.scale '0' (Text.ofNat (d.value.natAbs % 10 ^ d.scale))

theorem digits_wholeDigits (d : Decimal) : d.wholeDigits.Digits :=
  Numeral.digits_toDigits (by decide) (by decide) _

theorem digits_fractionDigits (d : Decimal) : d.fractionDigits.Digits :=
  Numeral.digits_padLeft _ (Numeral.digits_toDigits (by decide) (by decide) _)

/-- The text of a decimal: a sign, and its digits. -/
theorem render_eq (d : Decimal) : d.render = Numeral.sign (d.value < 0) ++
    (d.wholeDigits ++ if d.scale = 0 then [] else '.' :: d.fractionDigits) := by
  have sign : Numeral.sign (decide (d.value < 0)) = if d.value < 0 then ['-'] else [] := by
    rw [Numeral.sign]
    simp only [decide_eq_true_eq]
  rw [render, sign]
  split
  · next none =>
    rw [List.append_nil, wholeDigits, none, Nat.pow_zero, Nat.div_one]
  · rw [List.append_assoc]
    rfl

/-- There are as many fraction digits as the scale says. -/
theorem length_fractionDigits (pos : 0 < d.scale) : d.fractionDigits.length = d.scale := by
  refine Numeral.length_padLeft ((Nat.length_toDigits_le_iff (by decide) pos).2 ?_)
  exact Nat.mod_lt _ (Nat.pow_pos (by decide))

/-- All digits together write the magnitude. -/
theorem ofDigitChars_fractionDigits (pos : 0 < d.scale) :
    Nat.ofDigitChars 10 d.fractionDigits (d.value.natAbs / 10 ^ d.scale) = d.value.natAbs := by
  have fraction : Nat.ofDigitChars 10 d.fractionDigits 0 = d.value.natAbs % 10 ^ d.scale := by
    rw [fractionDigits, Numeral.ofDigitChars_padLeft, Nat.zero_mul]
    exact Nat.ofDigitChars_ten_toDigits
  rw [Nat.ofDigitChars_eq_ofDigitChars_zero, length_fractionDigits pos, fraction]
  exact Nat.div_add_mod _ _

/-- What the digits of a decimal leave behind when they are read. -/
theorem foldl_fractionDigits (h : d.Canonical) (pos : 0 < d.scale) :
    d.fractionDigits.foldl pushDigit (d.value.natAbs / 10 ^ d.scale, 0) =
      (d.value.natAbs, d.scale) := by
  have magnitude := ofDigitChars_fractionDigits pos
  have length := length_fractionDigits pos
  rw [foldl_pushDigit d.digits_fractionDigits (by rw [magnitude]; exact h.small)
    (by rw [length, Nat.zero_add]; exact h.short), magnitude, length, Nat.zero_add]

/-- The sign of a decimal gives its value back. -/
theorem signed_natAbs (value : Int) :
    (if decide (value < 0) = true then -(value.natAbs : Int) else value.natAbs) = value := by
  split
  · next negative =>
    have := of_decide_eq_true negative
    omega
  · next positive =>
    have := of_decide_eq_false (Bool.eq_false_iff.2 positive)
    omega

/-- A decimal begins with a digit, after its sign. -/
theorem wholeDigits_eq_cons (d : Decimal) :
    ∃ c rest, d.wholeDigits = c :: rest ∧ c.isDigit = true := by
  have some : d.wholeDigits ≠ [] := Nat.toDigits_ne_nil
  obtain ⟨c, rest, begins⟩ := List.exists_cons_of_ne_nil some
  exact ⟨c, rest, begins, d.digits_wholeDigits c (begins ▸ List.mem_cons_self)⟩

/-- After its sign a decimal is written with digits and at most a point. -/
theorem digit_or_point (d : Decimal) :
    ∀ c ∈ d.wholeDigits ++ if d.scale = 0 then [] else '.' :: d.fractionDigits,
      c.isDigit = true ∨ c = '.' := by
  intro c mem
  rcases List.mem_append.1 mem with whole | behind
  · exact .inl (d.digits_wholeDigits c whole)
  · split at behind
    · exact absurd behind List.not_mem_nil
    · rcases List.mem_cons.1 behind with rfl | fraction
      · exact .inr rfl
      · exact .inl (d.digits_fractionDigits c fraction)

/-- Neither is dropped from a numeral. -/
theorem plain_of_digit_or_point {c : Char} (h : c.isDigit = true ∨ c = '.') :
    c ≠ ' ' ∧ c ≠ ',' := by
  rcases h with digit | rfl
  · exact Numeral.plain_of_isDigit digit
  · exact ⟨by decide, by decide⟩

/-- So its text is a numeral with that sign. -/
theorem ofText_render (d : Decimal) : Numeral.ofText d.render =
    ⟨d.value < 0, d.wholeDigits ++ if d.scale = 0 then [] else '.' :: d.fractionDigits⟩ := by
  obtain ⟨c, rest, begins, digit⟩ := d.wholeDigits_eq_cons
  rw [render_eq]
  exact Numeral.ofText_sign (fun c mem => plain_of_digit_or_point (d.digit_or_point c mem))
    ⟨c, _, by rw [begins]; rfl, digit⟩ _

/-- Reading them gives the magnitude and the scale back. -/
theorem foldl_render (h : d.Canonical) :
    (fractionOf (if d.scale = 0 then [] else '.' :: d.fractionDigits)).foldl pushDigit
      (d.value.natAbs / 10 ^ d.scale, 0) = (d.value.natAbs, d.scale) := by
  split
  · next none =>
    rw [none, Nat.pow_zero, Nat.div_one]
    rfl
  · next some =>
    have fraction : fractionOf ('.' :: d.fractionDigits) = d.fractionDigits :=
      List.takeWhile_eq_self_iff.2 d.digits_fractionDigits
    rw [fraction, foldl_fractionDigits h (Nat.pos_of_ne_zero some)]

/-- The whole digits stand before the point, or before the end. -/
theorem takeWhile_render (d : Decimal) (behind : Text)
    (point : behind = [] ∨ ∃ rest, behind = '.' :: rest) :
    (d.wholeDigits ++ behind).takeWhile Char.isDigit = d.wholeDigits ∧
      (d.wholeDigits ++ behind).dropWhile Char.isDigit = behind := by
  rw [List.takeWhile_append_of_pos d.digits_wholeDigits,
    List.dropWhile_append_of_pos d.digits_wholeDigits]
  obtain rfl | ⟨rest, rfl⟩ := point
  · exact ⟨List.append_nil _, rfl⟩
  · exact ⟨List.append_nil _, rfl⟩

/-- **The text of a canonical decimal reads back as it.** -/
theorem parse_render (h : d.Canonical) : parse d.render = some d := by
  have whole : Numeral.natOfDigits 10 d.wholeDigits = d.value.natAbs / 10 ^ d.scale :=
    Numeral.natOfDigits_toDigits (by decide) (by decide) _
  have small : ¬ limit ≤ d.value.natAbs / 10 ^ d.scale :=
    Nat.not_le.2 (Nat.lt_of_le_of_lt (Nat.div_le_self _ _) h.small)
  have point : (if d.scale = 0 then [] else '.' :: d.fractionDigits) = [] ∨
      ∃ rest, (if d.scale = 0 then [] else '.' :: d.fractionDigits) = '.' :: rest := by
    split
    · exact .inl rfl
    · exact .inr ⟨_, rfl⟩
  obtain ⟨before, after⟩ := d.takeWhile_render _ point
  rw [parse_eq, ofText_render]
  dsimp only
  rw [before, after, whole, if_neg small, foldl_render h, signed_natAbs]
  exact normalize_of_canonical h

/-- **Canonical decimals have texts of their own.** -/
theorem render_eq_iff (ha : a.Canonical) (hb : b.Canonical) : a.render = b.render ↔ a = b := by
  constructor
  · intro same
    have read := parse_render ha
    rw [same, parse_render hb] at read
    exact (Option.some.inj read).symm
  · rintro rfl
    rfl

/-! ## Results that did not fit -/

/-- A decimal does not read like what stands for those. -/
theorem saturated_not_prefix (d : Decimal) : saturated.isPrefixOf d.render.dropSpaces = false := by
  have begins : ∃ c rest, d.render = c :: rest ∧ (c = '-' ∨ c.isDigit = true) := by
    obtain ⟨c, rest, whole, digit⟩ := d.wholeDigits_eq_cons
    rw [render_eq, whole]
    cases decide (d.value < 0) with
    | true => exact ⟨'-', _, rfl, .inl rfl⟩
    | false => exact ⟨c, _, rfl, .inr digit⟩
  obtain ⟨c, rest, begins, kind⟩ := begins
  have body : Text.dropSpaces (c :: rest) = c :: rest := by
    refine List.dropWhile_cons_of_neg (fun space => ?_)
    obtain rfl := of_decide_eq_true space
    revert kind
    decide
  have other : ('F' == c) = false := by
    rw [beq_eq_false_iff_ne]
    rintro rfl
    revert kind
    decide
  have mark : saturated = 'F' :: saturated.tail := by
    decide +kernel
  rw [begins, body, mark, List.isPrefixOf_cons_cons, other, Bool.false_and]

/-- **A result reads back as it was written**, whether it fitted or not. -/
theorem parseResult_renderResult {x : Option Decimal} (h : ∀ d, x = some d → d.Canonical) :
    parseResult (renderResult x) = x := by
  cases x with
  | none => exact if_pos (by decide +kernel)
  | some d =>
    rw [renderResult, parseResult, saturated_not_prefix, if_neg (by decide)]
    exact parse_render (h d rfl)

end Decimal

end LineScript
