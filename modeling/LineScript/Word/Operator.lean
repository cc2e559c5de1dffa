import LineScript.Text
/-!
# Operators

The words that stand between operands: ten binary operations, six
comparisons and nine functions of one number. Which of them a command can
use depends on the domain it calculates in.
-/

namespace LineScript

namespace Operator

/-- An operation on two numbers. -/
inductive Binary where
  | add | sub | mul | div | mod
  | bitAnd | bitOr | bitXor | shiftLeft | shiftRight
deriving DecidableEq

/-- A relation between two values. -/
inductive Comparison where
  | eq | ne | le | ge | lt | gt
deriving DecidableEq

/-- A function of one number. -/
inductive Function where
  | sqrt | rad | sin | cos | tan | ln | log | abs | neg
deriving DecidableEq

end Operator

/-- An operator. -/
inductive Operator where
  | binary (op : Operator.Binary)
  | comparison (op : Operator.Comparison)
  | function (op : Operator.Function)
deriving DecidableEq

namespace Operator

/-- Every operator. -/
def all : List Operator :=
  [Binary.add, .sub, .mul, .div, .mod, .bitAnd, .bitOr, .bitXor, .shiftLeft, .shiftRight].map binary
    ++ [Comparison.eq, .ne, .le, .ge, .lt, .gt].map comparison
    ++ [Function.sqrt, .rad, .sin, .cos, .tan, .ln, .log, .abs, .neg].map function

/-- The word an operator is written as. -/
def token : Operator → Text
  | binary .add => "+".toList
  | binary .sub => "-".toList
  | binary .mul => "*".toList
  | binary .div => "/".toList
  | binary .mod => "%".toList
  | binary .bitAnd => "&".toList
  | binary .bitOr => "|".toList
  | binary .bitXor => "^".toList
  | binary .shiftLeft => "<<".toList
  | binary .shiftRight => ">>".toList
  | comparison .eq => "==".toList
  | comparison .ne => "!=".toList
  | comparison .le => "<=".toList
  | comparison .ge => ">=".toList
  | comparison .lt => "<".toList
  | comparison .gt => ">".toList
  | function .sqrt => "sqrt".toList
  | function .rad => "rad".toList
  | function .sin => "sin".toList
  | function .cos => "cos".toList
  | function .tan => "tan".toList
  | function .ln => "ln".toList
  | function .log => "log".toList
  | function .abs => "abs".toList
  | function .neg => "neg".toList

/-- The operator a whole word is, if any. -/
def ofToken? (t : Text) : Option Operator := all.find? (·.token = t)

/-- Whether the operator compares. -/
def isComparison : Operator → Bool
  | comparison _ => true
  | _ => false

/-- Whether the operator takes a single operand. -/
def isUnary : Operator → Bool
  | function _ => true
  | _ => false

end Operator

end LineScript
