import LineScript.Board.Sequence
/-!
# Sound

A sequencer of notes with a second sequence that goes first: while interrupt
music is playing, the music underneath waits where it is.
-/

namespace LineScript

/-- The music, the music that interrupts it, the beat, and the note sounding. -/
structure Sound where
  music : Sequence := {}
  interrupting : Sequence := {}
  bpm : UInt32 := 0
  note : UInt32 := 0
deriving DecidableEq

namespace Sound

variable (s : Sound)

/-- Starts music. -/
def set (notes : List UInt32) (rounds : Nat) : Sound :=
  { s with music := Sequence.start notes rounds }

/-- Starts music that goes before whatever is playing. -/
def interrupt (notes : List UInt32) (rounds : Nat) : Sound :=
  { s with interrupting := Sequence.start notes rounds }

/-- Ends all music at once. -/
def clear : Sound := { s with music := {}, interrupting := {}, note := 0 }

/-- Sets the beat. -/
def setBeat (bpm : UInt32) : Sound := { s with bpm }

/-- Whether anything is left to play. -/
def isPlaying : Bool := !s.music.isDone || !s.interrupting.isDone

/-- One tick: the next note of the interrupting music, or else of the music,
or else silence. -/
def service : Sound :=
  match s.interrupting.advance with
  | (some note, interrupting) => { s with interrupting, note }
  | (none, _) =>
    let (note, music) := s.music.advance
    { s with music, note := note.getD 0 }

end Sound

end LineScript
