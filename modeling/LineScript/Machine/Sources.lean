import LineScript.Arithmetic
/-!
# Sources

The operands of an instruction as values, in order. Each can be had in any
domain, and one that is missing is zero or empty there. Arithmetic works on
the second and third, for the first is where the result goes; a condition
compares the first and second.
-/

namespace LineScript

/-- The values of the operands read so far. -/
abbrev Sources := List Value

namespace Sources

variable (v : Sources)

/-- A source as a signed word. -/
def signed (index : Nat) : Int32 := (v[index]?.map Value.asSigned).getD 0

/-- A source as an unsigned word. -/
def unsigned (index : Nat) : UInt32 := (v[index]?.map Value.asUnsigned).getD 0

/-- A source as a number of lines, elements or the like. -/
def number (index : Nat) : Nat := (v.unsigned index).toNat

/-- A source as a binary64 number. -/
def float (index : Nat) : Float := (v[index]?.map Value.asFloat).getD 0

/-- A source as a decimal. -/
def decimal (index : Nat) : Option Decimal :=
  (v[index]?.map Value.asDecimal).getD (some Decimal.zero)

/-- A source as text. -/
def text (index : Nat) : Text := (v[index]?.map Value.render).getD []

/-- The text of the result of an operator on the second and third source. -/
def compute (kind : Number) (op : Operator) : Option Text :=
  match kind with
  | .signed => (Arithmetic.signed op (v.signed 1) (v.signed 2)).map Text.ofInt32
  | .unsigned => (Arithmetic.unsigned op (v.unsigned 1) (v.unsigned 2)).map Text.ofUInt32
  | .decimal =>
    (Arithmetic.decimal op (v.decimal 1) (v.decimal 2)).map Decimal.renderResult
  | .float =>
    let result :=
      if op.isUnary then Arithmetic.function op (v.float 1)
      else Arithmetic.float op (v.float 1) (v.float 2)
    result.map Text.ofFloat

/-- Whether a relation holds between the first and the second source. -/
def holds (sides : Comparand) (op : Operator) : Bool :=
  match sides with
  | .number .signed => Arithmetic.compareSigned op (v.signed 0) (v.signed 1)
  | .number .unsigned => Arithmetic.compareUnsigned op (v.unsigned 0) (v.unsigned 1)
  | .number .decimal => Arithmetic.compareDecimal op (v.decimal 0) (v.decimal 1)
  | .number .float => Arithmetic.compareFloat op (v.float 0) (v.float 1)
  | .text => Arithmetic.compareText op (v.text 0) (v.text 1)

end Sources

end LineScript
