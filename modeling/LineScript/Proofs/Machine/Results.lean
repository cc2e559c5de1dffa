import LineScript.Proofs.Machine.Lines
import LineScript.Proofs.Number.Cut
/-!
# Results in lines

What a command computes is written to a line as text, and the line may be too
short for it. A result whose text fits is read back from its line as it was.
One whose text was cut is read as another number, but for a word of zeros in
binary digits (`Machine.result_survives_iff`). No text takes more than 34
bytes, so nothing is lost where lines are at least 35 bytes wide.
-/

namespace LineScript

/-- A result of a command that computes words or decimals. -/
inductive Result where
  | signed (n : Int32)
  | unsigned (n : UInt32)
  | decimal (d : Option Decimal)
  /-- A word that is written in binary digits. -/
  | bits (n : UInt32)

namespace Result

variable {r : Result} {row : Nat}

/-- What is written to the destination. -/
def text : Result → Text
  | signed n => Text.ofInt32 n
  | unsigned n => Text.ofUInt32 n
  | decimal d => Decimal.renderResult d
  | bits n => Text.ofBits n

/-- The domain the command works in. -/
def domain : Result → Domain
  | signed _ => .number .signed
  | unsigned _ => .number .unsigned
  | decimal _ => .number .decimal
  | bits _ => .logic

/-- The result as an operand of that domain. -/
def value : Result → Value
  | signed n => .signed n
  | unsigned n | bits n => .unsigned n
  | decimal d => .decimal d

/-- The most bytes that a result of the domain takes. -/
def width : Result → Nat
  | signed _ => 11
  | unsigned _ => 10
  | decimal _ => 19
  | bits _ => 34

/-- A decimal result is a canonical one. -/
def Canonical : Result → Prop
  | decimal (some d) => d.Canonical
  | _ => True

/-! ## Texts -/

/-- An integer is written with a sign and the digits of its magnitude. -/
theorem ofInt_eq (i : Int) : Text.ofInt i = Numeral.sign (i < 0) ++ Text.ofNat i.natAbs := by
  cases i with
  | ofNat n => rfl
  | negSucc n =>
    rw [decide_eq_true (Int.negSucc_lt_zero n)]
    rfl

theorem ascii_of_isDigit {c : Char} (h : c.isDigit = true) : c.toNat < 0x80 ∧ c ≠ '\x00' := by
  have range := Numeral.isDigit_iff.1 h
  refine ⟨?_, ?_⟩
  · have nine : '9'.toNat = 57 := rfl
    omega
  · rintro rfl
    revert h
    decide

theorem ascii_sign (negative : Bool) :
    ∀ c ∈ Numeral.sign negative, c.toNat < 0x80 ∧ c ≠ '\x00' := by
  intro c mem
  cases negative with
  | false => exact absurd mem List.not_mem_nil
  | true =>
    rw [List.mem_singleton.1 mem]
    decide

/-- Results are written in characters of one byte, none of them NUL. -/
theorem ascii (r : Result) : ∀ c ∈ r.text, c.toNat < 0x80 ∧ c ≠ '\x00' := by
  have number : ∀ n, ∀ c ∈ Text.ofNat n, c.toNat < 0x80 ∧ c ≠ '\x00' := fun n c mem =>
    ascii_of_isDigit (Nat.isDigit_of_mem_toDigits (by decide) (by decide) mem)
  cases r with
  | signed n =>
    have shape : (signed n).text = _ := ofInt_eq n.toInt
    intro c mem
    rw [shape] at mem
    exact (List.mem_append.1 mem).elim (ascii_sign _ c) (number _ c)
  | unsigned n => exact number _
  | decimal d =>
    cases d with
    | none =>
      have run : Decimal.saturated = List.replicate 16 'F' := by decide +kernel
      intro c mem
      have letter : c ∈ List.replicate 16 'F' := run ▸ (show c ∈ Decimal.saturated from mem)
      rw [List.eq_of_mem_replicate letter]
      decide
    | some d =>
      have shape : (decimal (some d)).text = _ := d.render_eq
      intro c mem
      rw [shape] at mem
      rcases List.mem_append.1 mem with front | behind
      · exact ascii_sign _ c front
      · rcases d.digit_or_point c behind with digit | rfl
        · exact ascii_of_isDigit digit
        · decide
  | bits n =>
    intro c mem
    rcases List.mem_append.1 mem with front | behind
    · rcases List.mem_cons.1 front with rfl | front
      · decide
      · rw [List.mem_singleton.1 front]
        decide
    · exact ascii_of_isDigit (Numeral.digits_word n c behind)

/-- **A slot keeps** as many characters of a result as it has room for. -/
theorem kept_text (r : Result) (row : Nat) : Slot.kept row r.text = r.text.take (row - 1) := by
  have whole : r.text.takeWhile (· ≠ '\x00') = r.text :=
    List.takeWhile_eq_self_iff.2 fun c mem => decide_eq_true (r.ascii c mem).2
  rw [Slot.kept, whole, Utf8.fit_of_ascii fun c mem => (r.ascii c mem).1]

theorem size_text (r : Result) : Utf8.size r.text = r.text.length :=
  Utf8.size_of_ascii fun c mem => (r.ascii c mem).1

theorem length_ofNat_le {n places : Nat} (some : 0 < places) (h : n < 10 ^ places) :
    (Text.ofNat n).length ≤ places := (Nat.length_toDigits_le_iff (by decide) some).2 h

/-- **No result takes more bytes** than its domain allows. -/
theorem size_text_le (h : r.Canonical) : Utf8.size r.text ≤ r.width := by
  rw [size_text]
  cases r with
  | signed n =>
    have shape : (signed n).text = _ := ofInt_eq n.toInt
    have least := n.le_toInt
    have most := n.toInt_lt
    have small : n.toInt.natAbs < 10 ^ 10 := by omega
    have digits := length_ofNat_le (by decide) small
    have front := Numeral.length_sign_le (n.toInt < 0)
    rw [shape, List.length_append, width]
    omega
  | unsigned n =>
    have most := n.toNat_lt
    have small : n.toNat < 10 ^ 10 := by omega
    exact length_ofNat_le (show 0 < 10 by decide) small
  | decimal d =>
    cases d with
    | none => decide +kernel
    | some d =>
      have shape : (decimal (some d)).text = Numeral.sign (d.value < 0) ++ d.body := d.render_eq
      have digits := d.length_body_le h
      have front := Numeral.length_sign_le (d.value < 0)
      rw [shape, List.length_append, width]
      omega
  | bits n =>
    have digits : (Nat.toDigits 2 n.toNat).length ≤ 32 :=
      (Nat.length_toDigits_le_iff (by decide) (by decide)).2 n.toNat_lt
    have word : (Numeral.word n).length = 32 := Numeral.length_padLeft digits
    have shape : (bits n).text.length = (Numeral.word n).length + 2 := rfl
    rw [shape, word, width]

/-! ## Reading -/

/-- **A result reads back** from its whole text. -/
theorem reads_text (h : r.Canonical) : Value.parse r.domain r.text = r.value := by
  cases r with
  | signed n =>
    exact congrArg Value.signed ((Numeral.toInt32_ofInt n.toInt).trans (Int32.ofInt_toInt n))
  | unsigned n =>
    exact congrArg Value.unsigned ((Numeral.toBits_ofNat false n.toNat).trans UInt32.ofNat_toNat)
  | decimal d =>
    refine congrArg Value.decimal (Decimal.parseResult_renderResult fun x same => ?_)
    subst same
    exact h
  | bits n => exact congrArg Value.unsigned (Numeral.toBits_ofBits n)

/-- **From less of it** than its text another value is read, unless the result
is a zero in binary digits. -/
theorem reads_take_iff {j : Nat} (enough : 2 ≤ j) (cut : j < r.text.length) :
    Value.parse r.domain (r.text.take j) = r.value ↔ r = bits 0 := by
  cases r with
  | signed n =>
    refine iff_of_false (fun same => ?_) Result.noConfusion
    have shape : (signed n).text = _ := ofInt_eq n.toInt
    have words : Numeral.toInt32 ((signed n).text.take j) = n := Value.signed.inj same
    have whole : Numeral.toInt32 (signed n).text = n :=
      (Numeral.toInt32_ofInt n.toInt).trans (Int32.ofInt_toInt n)
    have patterns := congrArg Int32.toUInt32 (words.trans whole.symm)
    have least := n.le_toInt
    have most := n.toInt_lt
    rw [shape] at cut patterns
    exact Numeral.toBits_take_ofNat_ne _ (by omega) enough cut patterns
  | unsigned n =>
    refine iff_of_false (fun same => ?_) Result.noConfusion
    have words : Numeral.toBits ((Text.ofNat n.toNat).take j) = n := Value.unsigned.inj same
    have whole : Numeral.toBits (Text.ofNat n.toNat) = n :=
      (Numeral.toBits_ofNat false n.toNat).trans UInt32.ofNat_toNat
    exact Numeral.toBits_take_ofNat_ne false n.toNat_lt enough cut (words.trans whole.symm)
  | decimal d =>
    refine iff_of_false (fun same => ?_) Result.noConfusion
    have results : Decimal.parseResult ((Decimal.renderResult d).take j) = d :=
      Value.decimal.inj same
    cases d with
    | none => exact Decimal.parseResult_take_saturated cut results
    | some d => exact Decimal.parseResult_take_ne enough cut results
  | bits n =>
    have words := Numeral.toBits_take_ofBits n enough cut
    constructor
    · intro same
      exact congrArg bits (words.1 (Value.unsigned.inj same))
    · intro zero
      exact congrArg Value.unsigned (words.2 (bits.inj zero))

/-- **A result is read from a slot as it was** if its text fits there or it is
a zero in binary digits, and only then. -/
theorem reads_kept_iff (h : r.Canonical) (wide : 3 ≤ row) :
    Value.parse r.domain (Slot.kept row r.text) = r.value ↔
      Utf8.size r.text < row ∨ r = bits 0 := by
  rw [kept_text, size_text]
  rcases Nat.lt_or_ge r.text.length row with fits | cut
  · rw [List.take_of_length_le (by omega)]
    exact iff_of_true (reads_text h) (.inl fits)
  · rw [reads_take_iff (by omega) (by omega)]
    exact ⟨.inr, fun either => either.resolve_left (Nat.not_lt.2 cut)⟩

end Result

/-! ## What commands compute -/

/-- **What is computed from decimals is canonical**, whatever they are. -/
theorem Decimal.canonical_basic {op : Arithmetic.Basic} {a b d : Decimal}
    (h : Arithmetic.decimalBasic op a b = some d) : d.Canonical := by
  cases op with
  | add | sub | mul => exact canonical_of_normalize h
  | div => exact canonical_div h
  | mod => exact canonical_rem h

namespace Sources

variable {v : Sources} {kind : Number} {op : Operator} {r : Result}

/-- The exact result of an operator on the second and third source, if it has
a meaning in the domain. Binary64 numbers have none. -/
def result? (v : Sources) (kind : Number) (op : Operator) : Option Result :=
  match kind with
  | .signed => (Arithmetic.signed op (v.signed 1) (v.signed 2)).map .signed
  | .unsigned => (Arithmetic.unsigned op (v.unsigned 1) (v.unsigned 2)).map .unsigned
  | .decimal => (Arithmetic.decimal op (v.decimal 1) (v.decimal 2)).map .decimal
  | .float => none

/-- It is what is written. -/
theorem compute_of_result (h : v.result? kind op = some r) : v.compute kind op = some r.text := by
  cases kind with
  | signed | unsigned | decimal =>
    obtain ⟨x, computed, rfl⟩ := Option.map_eq_some_iff.1 h
    rw [compute, computed]
    rfl
  | float => cases h

theorem canonical_of_result (h : v.result? kind op = some r) : r.Canonical := by
  cases kind with
  | signed | unsigned =>
    obtain ⟨x, -, rfl⟩ := Option.map_eq_some_iff.1 h
    trivial
  | decimal =>
    obtain ⟨x, computed, rfl⟩ := Option.map_eq_some_iff.1 h
    cases x with
    | none => trivial
    | some d =>
      obtain ⟨basic, -, result⟩ := Option.map_eq_some_iff.1 computed
      split at result
      · exact Decimal.canonical_basic result
      · cases result
  | float => cases h

end Sources

namespace Machine

variable {c : Config} {m : Machine} {i : Instruction} {v : Sources} {r : Result} {line : Nat}

/-- The word or the decimal that an instruction computes from its sources, if
it is one of the arithmetic commands or one for words in binary digits. -/
def result? (m : Machine) (i : Instruction) (v : Sources) : Option Result :=
  match i.command with
  | .compute kind => v.result? kind (i.operator.getD (.binary .add))
  | .bitwise op => some (.bits (Arithmetic.bitwise op (v.unsigned 1) (v.unsigned 2)))
  | .rand => some (.bits m.random.next.1)
  | _ => none

/-- Such a result is to be written, and no line has changed before. -/
theorem perform_of_result (h : m.result? i v = some r) :
    (m.perform i v).1 = .proceed (some r.text) none ∧ (m.perform i v).2.store = m.store := by
  unfold result? at h
  unfold perform
  split at h
  · next kind command =>
    rw [command]
    dsimp only
    rw [Sources.compute_of_result h]
    exact ⟨rfl, rfl⟩
  · next op command =>
    cases h
    rw [command]
    exact ⟨rfl, rfl⟩
  · next command =>
    cases h
    rw [command]
    exact ⟨rfl, rfl⟩
  · cases h

theorem canonical_of_result (h : m.result? i v = some r) : r.Canonical := by
  unfold result? at h
  split at h
  · exact Sources.canonical_of_result h
  · cases h
    trivial
  · cases h
    trivial
  · cases h

/-! ## Writing and reading -/

/-- The line that a result is written to holds what the slot keeps of it. -/
theorem line_of_result (stage : m.stage = .execute i v) (result : m.result? i v = some r)
    (destination : i.destination = some line) (inside : line < m.store.size) :
    m.step.step.store.line line = Slot.kept m.store.row r.text := by
  obtain ⟨effect, store⟩ := perform_of_result result
  have carried : m.step = (m.perform i v).2.enter (.advance (some (line, r.text)) none) := by
    rw [step, stage]
    dsimp only
    unfold executeCommand
    dsimp only
    rw [effect, destination]
    rfl
  have written : m.step.step.store = m.store.writeIfPresent line r.text := by
    rw [carried, ← store]
    rfl
  rw [written, Store.line_writeIfPresent inside]

/-- **A result survives in its line** exactly if its text fits there, or it is
a zero in binary digits. What is longer is cut, and reads as another number.
No text is longer than its domain allows. -/
theorem result_survives_iff (reachable : Reachable c m)
    (stage : m.stage = .execute i v) (result : m.result? i v = some r)
    (destination : i.destination = some line) (inside : line < c.lines) :
    ((Operand.line line).value r.domain m.step.step.store = r.value ↔
      Utf8.size r.text < c.row ∨ r = .bits 0) ∧ Utf8.size r.text ≤ r.width := by
  have canonical := canonical_of_result result
  have wide := reachable.sound.valid.row_ge
  refine ⟨?_, Result.size_text_le canonical⟩
  have held := line_of_result stage result destination (reachable.sound.size ▸ inside)
  rw [Operand.value, Operand.text, held, reachable.row]
  exact Result.reads_kept_iff canonical (by omega)

/-- The largest word survives in a line of eleven bytes, which it fills. -/
theorem result_survives_filled :
    ∃ m i v, Reachable { lines := 5, row := 11 } m ∧ m.stage = .execute i v ∧
      m.result? i v = some (.unsigned 4294967295) ∧
      (Operand.line 2).value (.number .unsigned) m.step.step.store = .unsigned 4294967295 := by
  have reached := (@Reachable.new { lines := 5, row := 11 } { clock := .stepped 0 } default _
    rfl).calls [.write 1 "uint @2 -1".toList, .receive "run".toList, .execute 3]
  generalize stands : Machine.calls _ _ = m at reached
  let i : Instruction := ⟨.compute .unsigned, none, [.line 2, .immediate "-1".toList]⟩
  let v : Sources := [.unsigned 0, .unsigned 4294967295]
  have stage : m.stage = .execute i v := by
    rw [← stands]
    rfl
  have result : m.result? i v = some (.unsigned 4294967295) := rfl
  obtain ⟨survives, -⟩ := result_survives_iff reached stage result rfl (by decide)
  exact ⟨m, i, v, reached, stage, result, survives.2 (.inl (by decide))⟩

/-- **A result that is cut does not**: a word of ones reads as 31 from a line
of eight bytes, the narrowest there are. -/
theorem result_cut :
    ∃ m i v, Reachable { lines := 5, row := 8 } m ∧ m.stage = .execute i v ∧
      m.result? i v = some (.bits 4294967295) ∧ i.destination = some 2 ∧
      m.step.step.store.line 2 = "0b11111".toList ∧
      (Operand.line 2).value .logic m.step.step.store = .unsigned 31 ∧
      (Operand.line 2).value .logic m.step.step.store ≠ .unsigned 4294967295 := by
  have reached := (@Reachable.new { lines := 5, row := 8 } { clock := .stepped 0 } default _ rfl).calls
    [.write 1 "not @2".toList, .receive "run".toList, .execute 2]
  generalize stands : Machine.calls _ _ = m at reached
  have stage : m.stage = .execute ⟨.bitwise .not, none, [.line 2]⟩ [.unsigned 0] := by
    rw [← stands]
    rfl
  have line : m.step.step.store.line 2 = "0b11111".toList := by
    rw [← stands]
    decide +kernel
  have read : (Operand.line 2).value .logic m.step.step.store = .unsigned 31 := by
    rw [Operand.value, Operand.text, line]
    rfl
  refine ⟨m, _, _, reached, stage, rfl, rfl, line, read, ?_⟩
  rw [read]
  exact fun same => absurd (Value.unsigned.inj same) (by decide)

end Machine

end LineScript
