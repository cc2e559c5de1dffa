import LineScript.Proofs.Number.Cut
import LineScript.Proofs.Number.Truncation
/-!
# Reading decimals

The numeral that a text begins with is a sign, if there is one, and the
longest run of digits with at most one point that follows it. It may be of any
length, and stands for a rational number (`numeralValue`). Reading it takes
every whole digit, and fraction digits for as long as there is room for one
more; so what has been read is the number, cut, and the digits that were not
taken are those that do not fit (`foldl_pushDigit_eq`). What is read is
therefore the number truncated to as many digits as there can be
(`parse_truncates`).
-/

namespace LineScript

/-! ## Leading zeros -/

namespace Numeral

variable {t : Text}

/-- Zeros in front do not count. -/
theorem natOfDigits_dropWhile (t : Text) :
    natOfDigits 10 (t.dropWhile (· = '0')) = natOfDigits 10 t := by
  induction t with
  | nil => rfl
  | cons c t ih =>
    by_cases zero : c = '0'
    · subst zero
      rw [List.dropWhile_cons_of_pos (by decide), ih]
      rfl
    · rw [List.dropWhile_cons_of_neg (by simpa using zero)]

/-- **A number is as long as its digits**, without the zeros in front. -/
theorem pow_le_natOfDigits_iff (digits : t.Digits) (n : ℕ) :
    10 ^ n ≤ natOfDigits 10 t ↔ n < (t.dropWhile (· = '0')).length := by
  have kept : Text.Digits (t.dropWhile (· = '0')) :=
    fun c mem => digits c ((List.dropWhile_sublist _).mem mem)
  have first := List.head?_dropWhile_not (· = '0') t
  rw [← natOfDigits_dropWhile]
  generalize t.dropWhile (· = '0') = t at kept first
  cases t with
  | nil => simp [natOfDigits]
  | cons c t =>
    have value : natOfDigits 10 (c :: t) = digitValue c * 10 ^ t.length + natOfDigits 10 t := by
      rw [natOfDigits, List.foldl_cons, foldl_digits, Nat.zero_mul, Nat.zero_add]
    have above := natOfDigits_lt fun c mem => digitValue_lt (kept c mem)
    have below : 10 ^ t.length ≤ natOfDigits 10 (c :: t) := by
      have counts : 1 ≤ digitValue c := by
        by_contra zero
        have digit := kept c List.mem_cons_self
        have same : c = '0' := by
          have range := isDigit_iff.1 digit
          rw [digitValue_of_isDigit digit] at zero
          exact Char.toNat_inj.1 (by omega)
        subst same
        simp at first
      rw [value]
      exact Nat.le_trans (Nat.le_mul_of_pos_left _ counts) (Nat.le_add_right _ _)
    constructor
    · intro le
      by_contra short
      have more : 10 ^ (c :: t).length ≤ 10 ^ n := Nat.pow_le_pow_right (by decide) (by omega)
      omega
    · intro lt
      refine Nat.le_trans (Nat.pow_le_pow_right (by decide) ?_) below
      rw [List.length_cons] at lt
      omega

end Numeral

namespace Decimal

variable {t body run : Text} {negative : Bool} {d : Decimal} {q : ℚ}

/-! ## Numerals as they are written -/

/-- Digits, with at most one point among them. -/
structure IsRun (t : Text) : Prop where
  plain : ∀ c ∈ t, c.isDigit = true ∨ c = '.'
  point : t.count '.' ≤ 1

/-- The longest run that a text begins with. -/
structure LongestRun (t run : Text) : Prop where
  leads : run <+: t
  isRun : IsRun run
  longest : ∀ other, other <+: t → IsRun other → other <+: run

/-- A text begins with a numeral: perhaps a sign, and the longest run behind it. -/
inductive BeginsWith : (t : Text) → (negative : Bool) → (run : Text) → Prop where
  | minus {t run : Text} : LongestRun t run → BeginsWith ('-' :: t) true run
  | plus {t run : Text} : LongestRun t run → BeginsWith ('+' :: t) false run
  | unsigned {t run : Text} : t.head? ≠ some '-' → t.head? ≠ some '+' → LongestRun t run →
      BeginsWith t false run

/-- The digits of a run before its point. -/
def wholeOf (run : Text) : Text := run.takeWhile (· ≠ '.')

/-- The number a run stands for: its digits as a whole number, shifted by those
behind the point. -/
def runValue (run : Text) : ℚ :=
  Nat.ofDigitChars 10 (run.filter (· ≠ '.')) 0 / 10 ^ (run.dropWhile (· ≠ '.')).tail.length

/-- The number a numeral stands for. -/
def numeralValue (negative : Bool) (run : Text) : ℚ :=
  if negative then -runValue run else runValue run

/-! ## The longest run -/

/-- A text begins with one longest run. -/
theorem LongestRun.unique {run' : Text} (h : LongestRun t run) (h' : LongestRun t run') :
    run = run' := by
  have within := h'.longest run h.leads h.isRun
  have back := h.longest run' h'.leads h'.isRun
  exact within.eq_of_length_le back.length_le

/-- Digits up to a point, and the digits behind it. -/
def runOf : Text → Text
  | [] => []
  | c :: t =>
    if c.isDigit then c :: runOf t
    else if c = '.' then '.' :: t.takeWhile Char.isDigit
    else []

/-- A digit is no point. -/
theorem ne_point {c : Char} (digit : c.isDigit = true) : c ≠ '.' := by
  rintro rfl
  exact absurd digit (by decide)

theorem count_point_of_digits (digits : t.Digits) : t.count '.' = 0 :=
  List.count_eq_zero.2 fun mem => ne_point (digits _ mem) rfl

theorem digits_takeWhile (t : Text) : Text.Digits (t.takeWhile Char.isDigit) :=
  fun _ mem => List.mem_takeWhile_imp mem

/-- Digits that a text begins with are among those it takes up to the first other character. -/
theorem prefix_takeWhile {other : Text} (leads : other <+: t) (digits : other.Digits) :
    other <+: t.takeWhile Char.isDigit := by
  obtain ⟨rest, rfl⟩ := leads
  rw [List.takeWhile_append_of_pos digits]
  exact List.prefix_append _ _

/-- **It is the longest run.** -/
theorem longestRun_runOf (t : Text) : LongestRun t (runOf t) := by
  induction t with
  | nil => exact ⟨List.nil_prefix, ⟨nofun, Nat.zero_le 1⟩, fun _ leads _ => leads⟩
  | cons c t ih =>
    unfold runOf
    split
    · next digit =>
      refine ⟨List.cons_prefix_cons.2 ⟨rfl, ih.leads⟩, ⟨fun x mem => ?_, ?_⟩,
        fun other leads isRun => ?_⟩
      · rcases List.mem_cons.1 mem with rfl | behind
        · exact .inl digit
        · exact ih.isRun.plain x behind
      · rw [List.count_cons_of_ne (ne_point digit)]
        exact ih.isRun.point
      · cases other with
        | nil => exact List.nil_prefix
        | cons x other =>
          obtain ⟨rfl, behind⟩ := List.cons_prefix_cons.1 leads
          have point := isRun.point
          rw [List.count_cons_of_ne (ne_point digit)] at point
          have rest : IsRun other := ⟨fun y mem => isRun.plain y (List.mem_cons_of_mem _ mem), point⟩
          exact List.cons_prefix_cons.2 ⟨rfl, ih.longest other behind rest⟩
    · next other =>
      split
      · next point =>
        subst point
        refine ⟨List.cons_prefix_cons.2 ⟨rfl, List.takeWhile_prefix _⟩, ⟨fun x mem => ?_, ?_⟩,
          fun other leads isRun => ?_⟩
        · rcases List.mem_cons.1 mem with rfl | behind
          · exact .inr rfl
          · exact .inl (digits_takeWhile t x behind)
        · rw [List.count_cons_self, count_point_of_digits (digits_takeWhile t)]
        · -- behind the point a run has nothing but digits
          cases other with
          | nil => exact List.nil_prefix
          | cons x other =>
            obtain ⟨rfl, behind⟩ := List.cons_prefix_cons.1 leads
            have point := isRun.point
            rw [List.count_cons_self] at point
            have digits : Text.Digits other := fun y mem =>
              (isRun.plain y (List.mem_cons_of_mem _ mem)).resolve_right fun again =>
                List.count_eq_zero.1 (by omega) (again ▸ mem)
            exact List.cons_prefix_cons.2 ⟨rfl, prefix_takeWhile behind digits⟩
      · next neither =>
        refine ⟨List.nil_prefix, ⟨nofun, Nat.zero_le 1⟩, fun longer leads isRun => ?_⟩
        cases longer with
        | nil => exact List.nil_prefix
        | cons x longer =>
          obtain ⟨rfl, -⟩ := List.cons_prefix_cons.1 leads
          exact absurd (isRun.plain x List.mem_cons_self) (not_or.2 ⟨other, neither⟩)

/-- The parts of the longest run, as a reader takes them. -/
theorem parts_runOf (t : Text) :
    wholeOf (runOf t) = t.takeWhile Char.isDigit ∧
    (runOf t).filter (· ≠ '.') =
      t.takeWhile Char.isDigit ++ fractionOf (t.dropWhile Char.isDigit) ∧
    ((runOf t).dropWhile (· ≠ '.')).tail = fractionOf (t.dropWhile Char.isDigit) := by
  induction t with
  | nil => exact ⟨rfl, rfl, rfl⟩
  | cons c t ih =>
    unfold runOf
    by_cases digit : c.isDigit = true
    · have plain : decide (c ≠ '.') = true := decide_eq_true (ne_point digit)
      obtain ⟨whole, digits, fraction⟩ := ih
      rw [wholeOf] at whole ⊢
      simp only [List.takeWhile_cons, List.filter_cons, List.dropWhile_cons, plain,
        digit, if_true, whole, digits, fraction, List.cons_append, and_self]
    · rw [if_neg digit]
      by_cases point : c = '.'
      · subst point
        have plain : ∀ x ∈ t.takeWhile Char.isDigit, decide (x ≠ '.') = true :=
          fun x mem => decide_eq_true (ne_point (digits_takeWhile t x mem))
        exact ⟨rfl, List.filter_eq_self.2 plain, rfl⟩
      · have none : fractionOf (c :: t) = [] := by
          unfold fractionOf
          split
          · next same => exact absurd (List.cons.inj same).1 point
          · rfl
        rw [if_neg point, List.takeWhile_cons_of_neg digit, List.dropWhile_cons_of_neg digit, none]
        exact ⟨rfl, rfl, rfl⟩

/-- A text begins with the numeral that is split off it, and with no other. -/
theorem beginsWith_iff (t : Text) :
    BeginsWith (t.filter fun c => c ≠ ' ' ∧ c ≠ ',') negative run ↔
      negative = (Numeral.ofText t).negative ∧ run = runOf (Numeral.ofText t).body := by
  unfold Numeral.ofText
  generalize t.filter _ = t
  constructor
  · rintro (longest | longest | ⟨minus, plus, longest⟩)
    · exact ⟨rfl, longest.unique (longestRun_runOf _)⟩
    · exact ⟨rfl, longest.unique (longestRun_runOf _)⟩
    · split
      · exact absurd rfl minus
      · exact absurd rfl plus
      · exact ⟨rfl, longest.unique (longestRun_runOf _)⟩
  · rintro ⟨rfl, rfl⟩
    split
    · exact .minus (longestRun_runOf _)
    · exact .plus (longestRun_runOf _)
    · next minus plus =>
      refine .unsigned (fun first => ?_) (fun first => ?_) (longestRun_runOf _)
      · obtain ⟨rest, rfl⟩ := List.head?_eq_some_iff.1 first
        exact minus rest rfl
      · obtain ⟨rest, rfl⟩ := List.head?_eq_some_iff.1 first
        exact plus rest rfl

/-! ## Taking digits -/

/-- Where there is no room for a fraction digit, there is none for those that follow. -/
theorem foldl_pushDigit_full {read : ℕ × ℕ} (full : ¬ (read.1 < limit / 10 ∧ read.2 < precision))
    (t : Text) : t.foldl pushDigit read = read := by
  induction t with
  | nil => rfl
  | cons c t ih => rw [List.foldl_cons, pushDigit, if_neg full, ih]

/-- **Fraction digits are taken until one does not fit**, or there are no more. -/
theorem foldl_pushDigit_eq (t : Text) (value : ℕ) {places : ℕ} (short : places ≤ precision) :
    ∃ j ≤ t.length,
      t.foldl pushDigit (value, places) =
        ((t.take j).foldl (fun n c => n * 10 + Numeral.digitValue c) value, places + j) ∧
      places + j ≤ precision ∧
      (j = t.length ∨ places + j = precision ∨
        limit ≤ 10 * (t.take j).foldl (fun n c => n * 10 + Numeral.digitValue c) value) := by
  induction t generalizing value places with
  | nil => exact ⟨0, Nat.le_refl 0, rfl, short, .inl rfl⟩
  | cons c t ih =>
    by_cases room : value < limit / 10 ∧ places < precision
    · obtain ⟨j, le, read, fits, last⟩ := ih (value * 10 + Numeral.digitValue c) room.2
      have next : places + 1 + j = places + (j + 1) := by omega
      rw [next] at read fits last
      refine ⟨j + 1, Nat.succ_le_succ le, ?_, fits, last.imp_left (congrArg (· + 1))⟩
      rw [List.foldl_cons, pushDigit, if_pos room]
      exact read
    · refine ⟨0, Nat.zero_le _, foldl_pushDigit_full room _, short, ?_⟩
      have tenfold : limit = 10 * (limit / 10) := by decide
      change _ ∨ places = precision ∨ limit ≤ 10 * value
      omega

/-- Fraction digits are digits. -/
theorem digits_fractionOf (t : Text) : (fractionOf t).Digits := by
  unfold fractionOf
  split
  · exact digits_takeWhile _
  · exact nofun

/-- **The number of a run, cut** behind so many fraction digits, is that of its
digits up to there. -/
theorem wholePart_runValue (body : Text) {j : ℕ}
    (le : j ≤ (fractionOf (body.dropWhile Char.isDigit)).length) :
    wholePart (runValue (runOf body) * 10 ^ j) =
      (((fractionOf (body.dropWhile Char.isDigit)).take j).foldl
        (fun n c => n * 10 + Numeral.digitValue c)
        (Numeral.natOfDigits 10 (body.takeWhile Char.isDigit)) : ℕ) := by
  obtain ⟨-, digits, fraction⟩ := parts_runOf body
  have front := digits_takeWhile body
  have behind := digits_fractionOf (body.dropWhile Char.isDigit)
  rw [runValue, digits, fraction]
  generalize body.takeWhile Char.isDigit = whole at front ⊢
  generalize fractionOf (body.dropWhile Char.isDigit) = fraction at le behind ⊢
  have all : Text.Digits (whole ++ fraction) :=
    fun c mem => (List.mem_append.1 mem).elim (front c) (behind c)
  obtain ⟨lost, length⟩ := Nat.exists_eq_add_of_le le
  have shifted : (Nat.ofDigitChars 10 (whole ++ fraction) 0 : ℚ) / 10 ^ fraction.length * 10 ^ j =
      ((Numeral.natOfDigits 10 (whole ++ fraction) : ℤ) : ℚ) / ((10 ^ lost : ℕ) : ℤ) := by
    rw [Numeral.natOfDigits_eq all, length, pow_add]
    push_cast
    field_simp
  have left : (whole ++ fraction).length - (whole.length + j) = lost := by
    rw [List.length_append]
    omega
  have kept : (whole ++ fraction).take (whole.length + j) = whole ++ fraction.take j :=
    List.take_length_add_append j
  have cut := Numeral.natOfDigits_take (fun c mem => Numeral.digitValue_lt (all c mem))
    (whole.length + j)
  rw [kept, left] at cut
  rw [shifted, wholePart_div, ← Int.ofNat_tdiv, ← cut, Numeral.natOfDigits, List.foldl_append]
  rfl

/-! ## What is read -/

theorem abs_numeralValue (negative : Bool) (run : Text) :
    |numeralValue negative run| = |runValue run| := by
  cases negative with
  | false => rfl
  | true => exact abs_neg _

/-- No digit of a numeral stands behind its last fraction digit. -/
theorem exists_numeralValue_eq (negative : Bool) (body : Text) :
    ∃ n : ℤ, numeralValue negative (runOf body) =
      n / 10 ^ (fractionOf (body.dropWhile Char.isDigit)).length := by
  obtain ⟨-, digits, fraction⟩ := parts_runOf body
  rw [numeralValue, runValue, digits, fraction]
  cases negative with
  | false => exact ⟨_, by rw [Int.cast_natCast]; rfl⟩
  | true => exact ⟨-_, by rw [Int.cast_neg, Int.cast_natCast, neg_div]; rfl⟩

/-- A sign is applied before or after the cut. -/
theorem wholePart_numeralValue (negative : Bool) (run : Text) (j : ℕ) :
    wholePart (numeralValue negative run * 10 ^ j) =
      if negative then -wholePart (runValue run * 10 ^ j) else wholePart (runValue run * 10 ^ j) := by
  cases negative with
  | false => rfl
  | true =>
    have moved : numeralValue true run * 10 ^ j = -(runValue run * 10 ^ j) := neg_mul _ _
    rw [moved, wholePart_neg, if_pos rfl]

theorem abs_wholePart_numeralValue (negative : Bool) (run : Text) (j : ℕ) :
    |wholePart (numeralValue negative run * 10 ^ j)| = |wholePart (runValue run * 10 ^ j)| := by
  rw [abs_wholePart, abs_wholePart, abs_mul, abs_mul, abs_numeralValue]

/-- **Where a numeral is too large**, it is for its whole digits. -/
theorem limit_le_whole_iff (negative : Bool) (body : Text) :
    limit ≤ Numeral.natOfDigits 10 (body.takeWhile Char.isDigit) ↔
      10 ^ 16 ≤ |numeralValue negative (runOf body)| := by
  have fits := natAbs_lt_limit_iff (runValue (runOf body)) 0
  rw [wholePart_runValue body (Nat.zero_le _), Int.natAbs_natCast, fits_iff, pow_zero, mul_one] at fits
  rw [abs_numeralValue, ← not_lt, ← not_lt]
  exact not_congr fits

/-- **A number that was read as far as there is room** is truncated. -/
theorem IsTruncation.of_full {places : ℕ} (h : IsTruncation q places d) (le : places ≤ 16)
    (small : |q| < 10 ^ 16)
    (last : (∃ n : ℤ, q = n / 10 ^ places) ∨ places = 16 ∨
      10 ^ 16 ≤ 10 * |wholePart (q * 10 ^ places)|) : IsTruncation q 16 d := by
  rcases last with ⟨n, whole⟩ | rfl | full
  · exact h.of_whole le whole small
  · exact h
  · refine h.widen le fun k more _ fits => ?_
    -- one more digit would be the seventeenth
    have next := (fits_iff q (places + 1)).1 (fits.mono more)
    have power : (0 : ℚ) < 10 ^ places := by positivity
    have below : ((|wholePart (q * 10 ^ places)| : ℤ) : ℚ) ≤ |q| * 10 ^ places := by
      have floored := Int.floor_le |q * 10 ^ places|
      rw [← abs_wholePart, abs_mul, abs_of_pos power] at floored
      exact_mod_cast floored
    have large : (10 : ℚ) ^ 16 ≤ 10 * (|wholePart (q * 10 ^ places)| : ℤ) := by
      exact_mod_cast full
    rw [pow_succ] at next
    linarith

/-- **Reading a numeral** that is not too large normalises what is left of it
when it is cut behind the digits that are taken. -/
theorem exists_parse_eq (t : Text) (small : ¬ limit ≤
      Numeral.natOfDigits 10 ((Numeral.ofText t).body.takeWhile Char.isDigit)) :
    let q := numeralValue (Numeral.ofText t).negative (runOf (Numeral.ofText t).body)
    ∃ places ≤ 16, parse t = normalize (wholePart (q * 10 ^ places)) places ∧
      ((∃ n : ℤ, q = n / 10 ^ places) ∨ places = 16 ∨
        10 ^ 16 ≤ 10 * |wholePart (q * 10 ^ places)|) := by
  dsimp only
  have parsed := parse_eq t
  dsimp only at parsed
  rw [if_neg small] at parsed
  generalize (Numeral.ofText t).negative = negative at *
  generalize (Numeral.ofText t).body = body at *
  obtain ⟨places, le, read, short, last⟩ :=
    foldl_pushDigit_eq (fractionOf (body.dropWhile Char.isDigit))
      (Numeral.natOfDigits 10 (body.takeWhile Char.isDigit)) (Nat.zero_le precision)
  have cut := wholePart_runValue body le
  rw [Nat.zero_add] at read short last
  rw [read] at parsed
  rw [← cut] at parsed
  refine ⟨places, short, ?_, ?_⟩
  · rw [parsed, wholePart_numeralValue]
  · rw [abs_wholePart_numeralValue, cut, Nat.abs_cast]
    rcases last with rfl | most | full
    · exact .inl (exists_numeralValue_eq negative body)
    · exact .inr (.inl most)
    · exact .inr (.inr (by exact_mod_cast full))

/-- **A numeral of any length is truncated** to sixteen digits. A text begins
with one numeral, once its spaces and commas are dropped. It does not fit
exactly when more than sixteen of its whole digits are left without the zeros
in front; any other is cut behind the last of sixteen fraction digits that
fits, and is canonical. Machine words are wide enough. -/
theorem parse_truncates (t : Text) :
    Words.parse t = .ok (parse t) ∧
    (∃ negative run, BeginsWith (t.filter fun c => c ≠ ' ' ∧ c ≠ ',') negative run) ∧
    ∀ negative run, BeginsWith (t.filter fun c => c ≠ ' ' ∧ c ≠ ',') negative run →
      (parse t = none ↔ 16 < ((wholeOf run).dropWhile (· = '0')).length) ∧
      ∀ d, parse t = some d → IsTruncation (numeralValue negative run) 16 d ∧ d.Canonical := by
  refine ⟨Words.parse_eq t, ⟨_, _, (beginsWith_iff t).2 ⟨rfl, rfl⟩⟩, fun negative run begins => ?_⟩
  obtain ⟨rfl, rfl⟩ := (beginsWith_iff t).1 begins
  have large := limit_le_whole_iff (Numeral.ofText t).negative (Numeral.ofText t).body
  have digits := digits_takeWhile (Numeral.ofText t).body
  have many : limit ≤ Numeral.natOfDigits 10 ((Numeral.ofText t).body.takeWhile Char.isDigit) ↔ _ :=
    Numeral.pow_le_natOfDigits_iff digits 16
  rw [(parts_runOf _).1, ← many]
  by_cases refused :
      limit ≤ Numeral.natOfDigits 10 ((Numeral.ofText t).body.takeWhile Char.isDigit)
  · have none : parse t = none := if_pos refused
    refine ⟨iff_of_true none refused, fun d given => ?_⟩
    rw [none] at given
    cases given
  · obtain ⟨places, le, read, last⟩ := exists_parse_eq t refused
    have small := not_le.1 (mt large.2 refused)
    rw [read, normalize_eq_none_iff, large]
    refine ⟨Iff.rfl, fun d given => ⟨?_, canonical_of_normalize given⟩⟩
    have cut := isTruncation_normalize _ places given
    rw [Nat.min_eq_right le] at cut
    exact cut.of_full le small last

/-- A long numeral with separators and zeros in front, cut behind its tenth fraction digit. -/
theorem parse_truncates_long :
    parse "- 00,123 456.7890123456789e5".toList = some ⟨-1234567890123456, 10⟩ ∧
    BeginsWith "-00123456.7890123456789e5".toList true "00123456.7890123456789".toList ∧
    IsTruncation (numeralValue true "00123456.7890123456789".toList) 16
      ⟨-1234567890123456, 10⟩ := by
  have read : parse "- 00,123 456.7890123456789e5".toList = some ⟨-1234567890123456, 10⟩ := by
    decide +kernel
  have plain : "- 00,123 456.7890123456789e5".toList.filter (fun c => c ≠ ' ' ∧ c ≠ ',') =
      "-00123456.7890123456789e5".toList := by
    decide +kernel
  have longest := longestRun_runOf "00123456.7890123456789e5".toList
  have run : runOf "00123456.7890123456789e5".toList = "00123456.7890123456789".toList := by
    decide +kernel
  rw [run] at longest
  have begins : BeginsWith "-00123456.7890123456789e5".toList true
      "00123456.7890123456789".toList := .minus longest
  obtain ⟨-, -, general⟩ := parse_truncates "- 00,123 456.7890123456789e5".toList
  rw [plain] at general
  exact ⟨read, begins, ((general _ _ begins).2 _ read).1⟩

end Decimal

end LineScript
