import LineScript.Word.Operator
/-!
# Arguments

The words after a keyword, told apart by their first character, and the
decoding of such a list of words: at most one operator is taken out, wherever
it stands, and then the first few of the other words are kept.
-/

namespace LineScript

/-- An argument as it is written. -/
inductive Argument where
  /-- A dot and a name: the line with that label. -/
  | label (name : Text)
  /-- A colon and a name: the line whose number the labelled line holds. -/
  | labelPointer (name : Text)
  /-- An at sign and a number: that line. -/
  | line (digits : Text)
  /-- A percent sign and a number: that many lines further on. -/
  | relative (digits : Text)
  /-- A bracket and a number: the line whose number that line holds. -/
  | linePointer (digits : Text)
  /-- A quote and a text, or a bare text: the text itself. -/
  | immediate (text : Text)
deriving DecidableEq

namespace Argument

/-- The text without the closing brackets at its end. -/
def dropClosing (t : Text) : Text := (t.reverse.dropWhile (· = ']')).reverse

/-- Tells a word by its first character. A lone percent sign is an immediate. -/
def classify (word : Text) : Argument :=
  match word with
  | '.' :: name => label name
  | ':' :: name => labelPointer name
  | '@' :: digits => line digits
  | '%' :: d :: digits => relative (d :: digits)
  | '[' :: digits => linePointer (dropClosing digits)
  | '\'' :: text => immediate text
  | _ => immediate word

/-- Takes the first operator out of a list of words. -/
def takeOperator : List Text → Option Operator × List Text
  | [] => (none, [])
  | word :: rest =>
    match Operator.ofToken? word with
    | some op => (some op, rest)
    | none =>
      let (op, rest) := takeOperator rest
      (op, word :: rest)

/-- The first `max` arguments of a text and, if asked for, its operator. -/
def parseAll (t : Text) (withOperator : Bool) (max : Nat) : List Argument × Option Operator :=
  let (op, words) := if withOperator then takeOperator t.words else (none, t.words)
  ((words.take max).map classify, op)

end Argument

end LineScript
