import LineScript.Proofs.Number.WordText
/-!
# Expressions of decimals

Whatever decimals are computed from, they stay canonical and fit machine words
(`expressions_fit`).
-/

namespace LineScript

namespace Decimal

/-- How decimals come about. -/
inductive Expression where
  | zero
  | parse (t : Text)
  | ofInt (n : Int64)
  | apply (op : Arithmetic.Basic) (x y : Expression)

namespace Expression

/-- The decimal of an expression, unless something in it does not fit or has
no value. -/
def value? : Expression → Option Decimal
  | zero => some .zero
  | parse t => Decimal.parse t
  | ofInt n => Decimal.ofInt n.toInt
  | apply op x y => do Arithmetic.decimalBasic op (← x.value?) (← y.value?)

/-- The same in machine words. -/
def inWords : Expression → Except Words.Overflow (Option Decimal)
  | zero => return some .zero
  | parse t => Words.parse t
  | ofInt n => do Words.normalize (← Words.word n.toInt) 0
  | apply op x y => do
    match ← x.inWords, ← y.inWords with
    | some a, some b => Words.basic a b op
    | _, _ => return none

variable {e : Expression} {a : Decimal}

/-- **What an expression gives is canonical.** -/
theorem canonical_value (h : e.value? = some a) : a.Canonical := by
  cases e with
  | zero =>
    cases h
    exact canonical_zero
  | parse t => exact canonical_parse h
  | ofInt n => exact canonical_ofInt h
  | apply op x y =>
    obtain ⟨b, -, h⟩ := Option.bind_eq_some_iff.1 h
    obtain ⟨c, -, h⟩ := Option.bind_eq_some_iff.1 h
    cases op with
    | add => exact canonical_of_normalize h
    | sub => exact canonical_of_normalize h
    | mul => exact canonical_of_normalize h
    | div => exact canonical_div h
    | mod => exact canonical_rem h

/-- **And it fits machine words**, every value on the way included. -/
theorem inWords_eq (e : Expression) : e.inWords = .ok e.value? := by
  induction e with
  | zero => rfl
  | parse t =>
    rw [inWords, Words.parse_eq]
    rfl
  | ofInt n =>
    have small : n.toInt.natAbs < 2 ^ 127 := by
      have low := n.le_toInt
      have high := n.toInt_lt
      omega
    rw [inWords, Words.word_eq small, Words.ok_bind, Words.normalize_eq 0 small]
    rfl
  | apply op x y ihx ihy =>
    rw [inWords, ihx, ihy, value?]
    simp only [Words.ok_bind]
    cases left : x.value? with
    | none => rfl
    | some a =>
      cases right : y.value? with
      | none => rfl
      | some b => exact Words.basic_eq op (canonical_value left) (canonical_value right)

/-- **Decimals stay canonical and fit machine words**, whatever they are
computed from: so do their comparison, the count of their whole digits and
their text; and two of them are equal as numbers only if they are the same,
which is when they have the same text. -/
theorem expressions_fit (e : Expression) :
    e.inWords = .ok e.value? ∧
    ∀ a, e.value? = some a →
      a.Canonical ∧ Words.integerLen a = .ok a.integerLen ∧ Words.render a = .ok a.render ∧
      ∀ (e' : Expression) (b : Decimal), e'.value? = some b →
        Words.compare a b = .ok (a.compare b) ∧ (a.compare b = .eq ↔ a = b) ∧
          (a.render = b.render ↔ a = b) := by
  refine ⟨inWords_eq e, fun a left => ?_⟩
  have ha := canonical_value left
  refine ⟨ha, Words.integerLen_eq ha, Words.render_eq ha, fun e' b right => ?_⟩
  have hb := canonical_value right
  exact ⟨Words.compare_eq ha hb, compare_eq_iff ha hb, render_eq_iff ha hb⟩

/-- A third takes all the places there are, and is more than three tenths. -/
theorem expressions_fit_third :
    Words.render ⟨3333333333333333, 16⟩ = .ok ("0.3333333333333333".toList) ∧
      Words.compare ⟨3333333333333333, 16⟩ ⟨3, 1⟩ = .ok .gt := by
  have third : (apply .div (ofInt 1) (ofInt 3)).value? = some ⟨3333333333333333, 16⟩ := by
    decide +kernel
  have tenths : (parse "0.3".toList).value? = some ⟨3, 1⟩ := by decide +kernel
  have text : render ⟨3333333333333333, 16⟩ = "0.3333333333333333".toList := by decide +kernel
  obtain ⟨-, -, rendered, pairs⟩ := (expressions_fit (apply .div (ofInt 1) (ofInt 3))).2 _ third
  obtain ⟨compared, -⟩ := pairs (parse "0.3".toList) _ tenths
  exact ⟨text ▸ rendered, compared⟩

end Expression

end Decimal

end LineScript
