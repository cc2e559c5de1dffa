import LineScript.Proofs.Number.RoundTrip
/-!
# Cut numerals

What is read of a numeral that was cut. The digits that are left write the
quotient by a power of the radix (`Numeral.natOfDigits_take`), which is less
than the number was, and a decimal that loses fraction digits has a smaller
scale. So a cut numeral reads as another number, but for a word of zeros in
binary digits: the zeros that are left are still a zero.
-/

namespace LineScript

/-- Digits that are left are digits. -/
theorem Text.Digits.take {t : Text} (h : t.Digits) (j : Nat) : Text.Digits (t.take j) :=
  fun c mem => h c (List.mem_of_mem_take mem)

namespace Numeral

variable {t : Text} {radix : Nat}

/-! ## Digits -/

/-- What is read before some digits moves up by as many places. -/
theorem foldl_digits (t : Text) (start : Nat) :
    t.foldl (fun n c => n * radix + digitValue c) start =
      start * radix ^ t.length + natOfDigits radix t := by
  induction t generalizing start with
  | nil => simp [natOfDigits]
  | cons c t ih =>
    have value : natOfDigits radix (c :: t) =
        (0 * radix + digitValue c) * radix ^ t.length + natOfDigits radix t := ih _
    rw [List.foldl_cons, ih, value, List.length_cons, Nat.zero_mul, Nat.zero_add, Nat.add_mul,
      Nat.mul_assoc, ← Nat.pow_succ', Nat.add_assoc]

theorem natOfDigits_append (t t' : Text) :
    natOfDigits radix (t ++ t') =
      natOfDigits radix t * radix ^ t'.length + natOfDigits radix t' := by
  rw [natOfDigits, List.foldl_append, foldl_digits]
  rfl

/-- So many digits write no more than there are numbers of that length. -/
theorem natOfDigits_lt (h : ∀ c ∈ t, digitValue c < radix) :
    natOfDigits radix t < radix ^ t.length := by
  induction t with
  | nil => exact Nat.one_pos
  | cons c t ih =>
    have first := h c List.mem_cons_self
    have rest := ih fun c mem => h c (List.mem_cons_of_mem _ mem)
    have value : natOfDigits radix (c :: t) =
        digitValue c * radix ^ t.length + natOfDigits radix t := by
      rw [natOfDigits, List.foldl_cons, foldl_digits, Nat.zero_mul, Nat.zero_add]
    calc natOfDigits radix (c :: t)
        < digitValue c * radix ^ t.length + radix ^ t.length := by omega
      _ = (digitValue c + 1) * radix ^ t.length := (Nat.succ_mul _ _).symm
      _ ≤ radix * radix ^ t.length := Nat.mul_le_mul_right _ first
      _ = radix ^ (c :: t).length := by rw [List.length_cons, Nat.pow_succ']

/-- **The leading digits** write the quotient by the places that are gone. -/
theorem natOfDigits_take (h : ∀ c ∈ t, digitValue c < radix) (j : Nat) :
    natOfDigits radix (t.take j) = natOfDigits radix t / radix ^ (t.length - j) := by
  have lost : natOfDigits radix (t.drop j) < radix ^ (t.length - j) := by
    rw [← List.length_drop]
    exact natOfDigits_lt fun c mem => h c (List.mem_of_mem_drop mem)
  have whole : natOfDigits radix (t.take j ++ t.drop j) = _ := natOfDigits_append _ _
  rw [List.take_append_drop, List.length_drop] at whole
  rw [whole, Nat.mul_comm, Nat.mul_add_div (Nat.zero_lt_of_lt lost), Nat.div_eq_of_lt lost,
    Nat.add_zero]

/-- A number that is written with more than one digit is none of them. -/
theorem pos_of_cut {n k : Nat} (kept : 0 < k) (cut : k < (Text.ofNat n).length) : 0 < n := by
  rcases Nat.eq_zero_or_pos n with rfl | pos
  · exact absurd kept (Nat.not_lt.2 (Nat.lt_succ_iff.1 cut))
  · exact pos

/-! ## Words -/

theorem length_sign_le (negative : Bool) : (sign negative).length ≤ 1 := by
  cases negative <;> decide

/-- A cut behind the sign is one of what follows it. -/
theorem take_sign (negative : Bool) (t : Text) {j : Nat} (behind : 1 ≤ j) :
    (sign negative ++ t).take j = sign negative ++ t.take (j - (sign negative).length) := by
  have short := length_sign_le negative
  rw [List.take_append, List.take_of_length_le (by omega)]

/-- A number below `2 ^ 32` as a word. -/
theorem toNat_toUInt32 {n : Nat} (h : n < 2 ^ 32) : n.toUInt32.toNat = n := by
  rw [Nat.toUInt32_eq, UInt32.toNat_ofNat']
  exact Nat.mod_eq_of_lt h

/-- A word in decimal digits does not survive the loss of any. -/
theorem toBits_take_ne (digits : t.Digits) (negative : Bool) {j : Nat} (some : 0 < j)
    (cut : j < t.length) (pos : 0 < natOfDigits 10 t) (small : natOfDigits 10 t < 2 ^ 32) :
    toBits (sign negative ++ t.take j) ≠ toBits (sign negative ++ t) := by
  have left : t.take j ≠ [] := by
    rw [Ne, List.take_eq_nil_iff]
    rintro (rfl | rfl)
    · exact Nat.lt_irrefl 0 some
    · exact Nat.not_lt_zero j cut
  have whole : t ≠ [] := fun none => left (by rw [none, List.take_nil])
  have less : natOfDigits 10 (t.take j) < natOfDigits 10 t := by
    rw [natOfDigits_take (fun c mem => digitValue_lt (digits c mem))]
    exact Nat.div_lt_self pos (Nat.one_lt_pow (by omega) (by decide))
  have differ : (natOfDigits 10 (t.take j)).toUInt32 ≠ (natOfDigits 10 t).toUInt32 := by
    intro same
    have numbers := congrArg UInt32.toNat same
    rw [toNat_toUInt32 (Nat.lt_trans less small), toNat_toUInt32 small] at numbers
    exact Nat.ne_of_lt less numbers
  rw [toBits_of_digits (digits.take j) left, toBits_of_digits digits whole]
  cases negative with
  | false => exact differ
  | true => exact fun same => differ (UInt32.neg_inj.1 same)

/-- **What is written for a word** reads as another one when it was cut. -/
theorem toBits_take_ofNat_ne (negative : Bool) {n j : Nat} (small : n < 2 ^ 32) (enough : 2 ≤ j)
    (cut : j < (sign negative ++ Text.ofNat n).length) :
    toBits ((sign negative ++ Text.ofNat n).take j) ≠ toBits (sign negative ++ Text.ofNat n) := by
  have short := length_sign_le negative
  have digits : (Text.ofNat n).Digits := digits_toDigits (by decide) (by decide) n
  have value : natOfDigits 10 (Text.ofNat n) = n := natOfDigits_toDigits (by decide) (by decide) n
  rw [List.length_append] at cut
  have kept : 0 < j - (sign negative).length := by omega
  have fewer : j - (sign negative).length < (Text.ofNat n).length := by omega
  rw [take_sign negative _ (by omega)]
  refine toBits_take_ne digits negative kept fewer ?_ ?_
  · rw [value]
    exact pos_of_cut kept fewer
  · rwa [value]

/-- **A word in binary digits** that loses some of them survives if it is zero. -/
theorem toBits_take_ofBits (n : UInt32) {j : Nat} (announced : 2 ≤ j)
    (cut : j < (Text.ofBits n).length) : toBits ((Text.ofBits n).take j) = n ↔ n = 0 := by
  have shape : (Text.ofBits n).take j = '0' :: 'b' :: (word n).take (j - 2) := by
    obtain ⟨k, rfl⟩ := Nat.exists_eq_add_of_le' announced
    rfl
  have length : (Text.ofBits n).length = (word n).length + 2 := rfl
  have binary := isDigit_word n
  have kept : ∀ c ∈ (word n).take (j - 2), isDigit 2 c = true :=
    fun c mem => binary c (List.mem_of_mem_take mem)
  rw [shape, toBits_of_binary ((digits_word n).take _) kept,
    natOfDigits_take (fun c mem => of_decide_eq_true (binary c mem)), natOfDigits_word]
  have places : 1 < 2 ^ ((word n).length - (j - 2)) := Nat.one_lt_pow (by omega) (by decide)
  constructor
  · intro same
    have numbers := congrArg UInt32.toNat same
    rw [toNat_toUInt32 (Nat.lt_of_le_of_lt (Nat.div_le_self _ _) n.toNat_lt)] at numbers
    rcases Nat.eq_zero_or_pos n.toNat with zero | pos
    · exact UInt32.toNat_inj.1 zero
    · exact absurd numbers (Nat.ne_of_lt (Nat.div_lt_self pos places))
  · rintro rfl
    rw [UInt32.toNat_zero, Nat.zero_div]
    rfl

end Numeral

namespace Decimal

variable {d d' : Decimal} {t : Text}

/-! ## Decimals -/

/-- Normalising adds no fraction digits. -/
theorem scale_normalize_le {value : Int} {scale : Nat} (h : normalize value scale = some d) :
    d.scale ≤ scale := by
  induction scale generalizing value with
  | zero =>
    rw [normalize] at h
    split at h
    · cases h
      exact Nat.le_refl 0
    · cases h
  | succ scale ih =>
    rw [normalize] at h
    split at h
    · exact Nat.le_succ_of_le (ih h)
    · cases h
      exact Nat.le_refl _

/-- A whole number is its own normal form. -/
theorem value_of_normalize_zero {value : Int} (h : normalize value 0 = some d) :
    d.value = value := by
  rw [normalize] at h
  split at h
  · cases h
    rfl
  · cases h

/-- No more fraction digits are kept than there are. -/
theorem foldl_pushDigit_le (t : Text) (start : Nat × Nat) :
    (t.foldl pushDigit start).2 ≤ start.2 + t.length := by
  induction t generalizing start with
  | nil => exact Nat.le_refl _
  | cons c t ih =>
    have rest := ih (pushDigit start c)
    have one : (pushDigit start c).2 ≤ start.2 + 1 := by
      unfold pushDigit
      split
      · exact Nat.le_refl _
      · exact Nat.le_succ _
    rw [List.foldl_cons, List.length_cons]
    omega

/-- **A decimal that is read** has no more fraction digits than its numeral. -/
theorem scale_parse_le (h : parse t = some d) :
    d.scale ≤ (fractionOf ((Numeral.ofText t).body.dropWhile Char.isDigit)).length := by
  rw [parse_eq] at h
  split at h
  · cases h
  · have pushed := foldl_pushDigit_le
      (fractionOf ((Numeral.ofText t).body.dropWhile Char.isDigit))
      (Numeral.natOfDigits 10 ((Numeral.ofText t).body.takeWhile Char.isDigit), 0)
    have kept := scale_normalize_le h
    omega

/-- What follows the sign in the text of a decimal. -/
def body (d : Decimal) : Text :=
  d.wholeDigits ++ if d.scale = 0 then [] else '.' :: d.fractionDigits

/-- A canonical decimal has at most sixteen digits, but for a zero before the point. -/
theorem length_body_le (h : d.Canonical) : d.body.length ≤ 18 := by
  have small := h.small
  have short := h.short
  unfold precision at short
  rw [limit, precision] at small
  have whole : d.wholeDigits.length ≤ max 1 (16 - d.scale) := by
    refine (Nat.length_toDigits_le_iff (by decide) (by omega)).2 ?_
    refine Nat.div_lt_of_lt_mul (Nat.lt_of_lt_of_le small ?_)
    rw [← Nat.pow_add]
    exact Nat.pow_le_pow_right (by decide) (by omega)
  rw [body, List.length_append]
  split
  · rw [List.length_nil]
    omega
  · next point =>
    rw [List.length_cons, length_fractionDigits (Nat.pos_of_ne_zero point)]
    omega

variable {k : Nat}

/-- A decimal that was cut is a numeral with its sign. -/
theorem ofText_take (d : Decimal) (kept : 0 < k) :
    Numeral.ofText (Numeral.sign (d.value < 0) ++ d.body.take k) =
      ⟨d.value < 0, d.body.take k⟩ := by
  obtain ⟨c, rest, begins, digit⟩ := d.wholeDigits_eq_cons
  obtain ⟨k, rfl⟩ := Nat.exists_eq_add_one_of_ne_zero (Nat.pos_iff_ne_zero.1 kept)
  have front : ∃ rest, d.body.take (k + 1) = c :: rest := by
    rw [body, begins, List.cons_append, List.take_succ_cons]
    exact ⟨_, rfl⟩
  obtain ⟨rest, front⟩ := front
  refine Numeral.ofText_sign (fun c mem => ?_) ⟨c, rest, front, digit⟩ _
  exact plain_of_digit_or_point (d.digit_or_point c (List.mem_of_mem_take mem))

/-- **A whole number that lost digits** reads as a smaller one. -/
theorem parse_take_of_whole (whole : d.scale = 0) (kept : 0 < k) (cut : k < d.body.length) :
    parse (Numeral.sign (d.value < 0) ++ d.body.take k) ≠ some d := by
  have shape : d.body = d.wholeDigits := by
    rw [body, if_pos whole, List.append_nil]
  have digits : Text.Digits (d.body.take k) := (shape ▸ d.digits_wholeDigits).take k
  have value : Numeral.natOfDigits 10 d.body = d.value.natAbs := by
    rw [shape, wholeDigits, whole, Nat.pow_zero, Nat.div_one]
    exact Numeral.natOfDigits_toDigits (by decide) (by decide) _
  have pos : 0 < d.value.natAbs := by
    refine Numeral.pos_of_cut kept ?_
    rwa [shape, wholeDigits, whole, Nat.pow_zero, Nat.div_one] at cut
  have less : Numeral.natOfDigits 10 (d.body.take k) < d.value.natAbs := by
    have each : ∀ c ∈ d.body, Numeral.digitValue c < 10 := by
      rw [shape]
      exact fun c mem => Numeral.digitValue_lt (d.digits_wholeDigits c mem)
    rw [Numeral.natOfDigits_take each, value]
    exact Nat.div_lt_self pos (Nat.one_lt_pow (by omega) (by decide))
  rw [parse_eq, ofText_take d kept]
  dsimp only
  rw [List.takeWhile_eq_self_iff.2 digits, List.dropWhile_eq_nil_iff.2 digits]
  generalize Numeral.natOfDigits 10 (d.body.take k) = left at less
  intro same
  split at same
  · cases same
  · have values := value_of_normalize_zero same
    have nothing : List.foldl pushDigit (left, 0) (fractionOf []) = (left, 0) := rfl
    rw [nothing] at values
    split at values <;> omega

/-- **A fraction that lost digits** reads as one with a smaller scale. -/
theorem parse_take_of_fraction (point : 0 < d.scale) (kept : 0 < k) (cut : k < d.body.length) :
    parse (Numeral.sign (d.value < 0) ++ d.body.take k) ≠ some d := by
  have shape : d.body = d.wholeDigits ++ '.' :: d.fractionDigits := by
    rw [body, if_neg (by omega)]
  intro same
  have fewer := scale_parse_le same
  rw [ofText_take d kept, shape] at fewer
  rw [shape, List.length_append, List.length_cons, length_fractionDigits point] at cut
  dsimp only at fewer
  rcases Nat.lt_or_ge d.wholeDigits.length k with behind | before
  · obtain ⟨p, rfl⟩ := Nat.exists_eq_add_of_lt behind
    rw [Nat.add_assoc, List.take_length_add_append, List.take_succ_cons,
      (d.takeWhile_render _ (.inr ⟨_, rfl⟩)).2] at fewer
    have most : (fractionOf ('.' :: d.fractionDigits.take p)).length ≤ p :=
      Nat.le_trans (List.takeWhile_sublist _).length_le (List.length_take_le _ _)
    omega
  · -- the point is gone
    rw [List.take_append_of_le_length before,
      List.dropWhile_eq_nil_iff.2 (d.digits_wholeDigits.take k)] at fewer
    exact Nat.not_lt.2 fewer point

/-- **A decimal** does not survive the loss of any character. -/
theorem parseResult_take_ne {j : Nat} (more : 2 ≤ j) (cut : j < d.render.length) :
    parseResult (d.render.take j) ≠ some d := by
  have short := Numeral.length_sign_le (d.value < 0)
  have shape : d.render = Numeral.sign (d.value < 0) ++ d.body := d.render_eq
  rw [shape, List.length_append] at cut
  rw [parseResult, shape, Numeral.take_sign _ _ (by omega)]
  split
  · exact (Option.some_ne_none d).symm
  · rcases Nat.eq_zero_or_pos d.scale with whole | point
    · exact parse_take_of_whole whole (by omega) (by omega)
    · exact parse_take_of_fraction point (by omega) (by omega)

/-- **What stands for a result that did not fit** reads as a number when it was cut. -/
theorem parseResult_take_saturated {j : Nat} (cut : j < saturated.length) :
    parseResult (saturated.take j) ≠ none := by
  have all : ∀ j < 16, parseResult (saturated.take j) ≠ none := by
    decide +kernel
  exact all j cut

end Decimal

end LineScript
