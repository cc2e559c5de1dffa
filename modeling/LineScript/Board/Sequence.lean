/-!
# Sequences

A list of frames that is played one frame per tick, a number of times over or
without end. A sequence that has been played is empty.
-/

namespace LineScript

/-- Frames, how many more times they are played (0 is without end), and the
next one to play. -/
structure Sequence where
  frames : List UInt32 := []
  rounds : Nat := 0
  position : Nat := 0
deriving DecidableEq

namespace Sequence

/-- A sequence from its first frame. -/
def start (frames : List UInt32) (rounds : Nat) : Sequence := { frames, rounds }

/-- Whether nothing is left to play. -/
def isDone (s : Sequence) : Bool := s.frames.isEmpty

/-- What follows when the last frame of a round has been played. -/
def endRound (s : Sequence) : Sequence :=
  match s.rounds with
  | 0 => { s with position := 0 }
  | 1 => { s with position := 0, frames := [] }
  | n + 2 => { s with position := 0, rounds := n + 1 }

/-- Plays the next frame, if there is one. -/
def advance (s : Sequence) : Option UInt32 × Sequence :=
  match s.frames[s.position]? with
  | none => (none, s)
  | some frame =>
    if s.position + 1 = s.frames.length then (some frame, s.endRound)
    else (some frame, { s with position := s.position + 1 })

end Sequence

end LineScript
