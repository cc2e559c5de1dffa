import LineScript.Board.Clock
import LineScript.Board.Eeprom
import LineScript.Board.Gpio
import LineScript.Board.Heap
import LineScript.Board.Sound
/-!
# The board

The devices a script can reach.
-/

namespace LineScript

/-- The devices of a board. -/
structure Board where
  clock : Clock
  eeprom : Eeprom := Eeprom.blank
  gpio : Gpio := {}
  sound : Sound := {}
  heap : Heap := {}

/-- One tick of the timer: a frame of every sequencer. -/
def Board.service (b : Board) : Board :=
  { b with gpio := b.gpio.service, sound := b.sound.service }

end LineScript
