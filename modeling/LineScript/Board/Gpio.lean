import LineScript.Board.Sequence
/-!
# The GPIO pins

Thirty-two pins. A pattern of words is driven onto the outputs, one word
per tick; the last word stays when the pattern has ended.
-/

namespace LineScript

/-- The pattern being played, the outputs and the inputs. -/
structure Gpio where
  sequence : Sequence := {}
  output : UInt32 := 0
  inputs : UInt32 := 0
deriving DecidableEq

namespace Gpio

variable (g : Gpio)

/-- Starts a pattern. -/
def set (pattern : List UInt32) (rounds : Nat) : Gpio :=
  { g with sequence := Sequence.start pattern rounds }

/-- Sets the outputs of the mask low, and ends the pattern unless it is to stay. -/
def clear (mask : UInt32) (stay : Bool) : Gpio :=
  { g with
    output := g.output &&& ~~~mask
    sequence := if stay then g.sequence else {} }

/-- The mask of one pin; a pin past the last has none. -/
def pinMask (pin : UInt32) : UInt32 := if pin < 32 then 1 <<< pin else 0

/-- Whether an input is high. -/
def input (pin : UInt32) : Bool := g.inputs &&& pinMask pin ≠ 0

/-- Drives an input from outside. -/
def drive (pin : UInt32) (high : Bool) : Gpio :=
  { g with
    inputs := if high then g.inputs ||| pinMask pin else g.inputs &&& ~~~pinMask pin }

/-- One tick: the next word of the pattern, if there is one, is put out. -/
def service : Gpio :=
  let (frame, sequence) := g.sequence.advance
  { g with sequence, output := frame.getD g.output }

end Gpio

end LineScript
