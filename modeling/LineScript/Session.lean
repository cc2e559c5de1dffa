import LineScript.Arrays
import LineScript.Config
import LineScript.Flow
import LineScript.Label
import LineScript.LinkStack
/-!
# Sessions

Everything a run can change besides the lines and the board: the skipping of
lines, the link stack, the labels, the arrays, and the scratch stack. That
stack grows downward through the line store itself, from the slot below the
last program line; at line 1 it stops growing and the newest entry is
replaced.
-/

namespace LineScript

/-- The state of a run. The scratch stack occupies the lines from `scratch`
up to, and without, `floor`. -/
structure Session where
  flow : Flow := Flow.running
  link : LinkStack
  labels : LabelTable
  arrays : ArrayTable
  scratch : Nat
  floor : Nat
deriving DecidableEq

namespace Session

/-- The state before any run. -/
def new (c : Config) : Session :=
  { link := { capacity := c.linkDepth }
    labels := { capacity := c.labels, nameLen := c.labelLen }
    arrays := ArrayTable.new c.arrays
    scratch := c.scratchFloor
    floor := c.scratchFloor }

/-- Back to the state before any run; arrays give their blocks back. -/
def reset (s : Session) (heap : Heap) : Session × Heap :=
  let (arrays, heap) := s.arrays.freeAll heap
  ({ s with
      flow := Flow.running, link := s.link.clear, labels := s.labels.clear, arrays,
      scratch := s.floor }, heap)

/-- Writes a text on top of the scratch stack. -/
def push (s : Session) (lines : Store) (t : Text) : Session × Store :=
  let scratch := if 1 < s.scratch then s.scratch - 1 else s.scratch
  ({ s with scratch }, lines.writeIfPresent scratch t)

/-- Takes the text on top of the scratch stack and blanks its line. -/
def pop (s : Session) (lines : Store) : Option Text × Session × Store :=
  if s.floor ≤ s.scratch then (none, s, lines)
  else
    match lines.read s.scratch with
    | .error _ => (none, s, lines)
    | .ok t => (some t, { s with scratch := s.scratch + 1 }, lines.writeIfPresent s.scratch [])

end Session

end LineScript
