import LineScript.Label
import LineScript.Value
import LineScript.Word.Argument
/-!
# Operands

An argument after its labels and pointers have been looked up: a line, a text
of its own, or nothing at all. Looking up never fails: an unknown label is
line 0, a line that does not exist reads as empty, and a relative reference
to before line 0 is the empty operand. Relative references are counted from
the current line as a signed 64-bit number.
-/

namespace LineScript

/-- What an argument refers to. -/
inductive Operand where
  | line (n : Nat)
  | immediate (t : Text)
  /-- A relative reference to before line 0. -/
  | empty
deriving DecidableEq

namespace Operand

/-- What a line says after its label. -/
def afterLabel (t : Text) : Text :=
  let body := t.dropSpaces
  if body.head? = some '.' then body.dropWhile (· ≠ ' ') else body

/-- The line number that a line holds. -/
def pointer (s : Store) (index : Nat) : Operand :=
  line (Numeral.toBits (afterLabel (s.line index))).toNat

/-- Looks up an argument of line `current`. -/
def resolve (arg : Argument) (current : Nat) (labels : LabelTable) (s : Store) : Operand :=
  match arg with
  | .label name => line ((labels.lookup name).getD 0)
  | .labelPointer name => pointer s ((labels.lookup name).getD 0)
  | .line digits => line (Numeral.toBits digits).toNat
  | .relative digits =>
    let n := Int.bmod current (2 ^ 64) + (Numeral.toInt32 digits).toInt
    if n < 0 then empty else line n.toNat
  | .linePointer digits => pointer s (Numeral.toBits digits).toNat
  | .immediate t => immediate t

/-- The line an operand is, as a place to write to. -/
def line? : Operand → Option Nat
  | line n => some n
  | _ => none

/-- The line an operand points at. A bare number points, too. -/
def target? : Operand → Option Nat
  | line n => some n
  | immediate t => some (Numeral.toBits t).toNat
  | empty => none

/-- The text an operand stands for. -/
def text (s : Store) : Operand → Text
  | line n => s.line n
  | immediate t => t
  | empty => []

/-- The value an operand stands for. -/
def value (domain : Domain) (s : Store) (o : Operand) : Value := Value.parse domain (o.text s)

end Operand

end LineScript
