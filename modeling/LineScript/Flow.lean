import LineScript.Word.Command
/-!
# Skipping lines

Blocks are never parsed. When a condition fails, lines are skipped from there
on, and a counter of the blocks opened and closed meanwhile tells which
keyword ends the skipping: a failed branch ends at its own `else` or `endif`,
a loop that is left at its own `endwhile` or `next`. While a loop is skipped,
`else` and `endif` at depth zero are passed over, for the loop may be left
from inside an `if`.
-/

namespace LineScript

/-- Why lines are being skipped. -/
inductive Skip where
  /-- A branch is not taken. -/
  | branch
  /-- A loop is not entered, or left. -/
  | loop
deriving DecidableEq

/-- Whether lines are being skipped, and how many blocks were opened meanwhile. -/
structure Flow where
  skip : Option Skip := none
  nest : Nat := 0
deriving DecidableEq

namespace Flow

/-- Nothing is skipped. -/
def running : Flow := {}

/-- Whether lines are being skipped. -/
def isSkipping (f : Flow) : Bool := f.skip.isSome

/-- Starts to skip lines. -/
def start (reason : Skip) : Flow := { skip := some reason }

/-- Closes a block; one that was not opened meanwhile ends the skipping if
that is what `ends` says. -/
def close (f : Flow) (ends : Bool) : Flow :=
  match f.nest with
  | nest + 1 => { f with nest }
  | 0 => if ends then running else f

/-- Takes note of the command of a skipped line. -/
def pass (f : Flow) (c : Command) : Flow :=
  if c.opensBlock then { f with nest := f.nest + 1 }
  else
    match c with
    | .otherwise => if f.nest = 0 ∧ f.skip = some .branch then running else f
    | .endBranch => f.close (f.skip = some .branch)
    | .endLoop | .next => f.close true
    | _ => f

/-- A command that is not watched while lines are skipped changes nothing. -/
theorem pass_of_not_skipAware (f : Flow) {c : Command} (h : c.skipAware = false) :
    f.pass c = f := by
  cases c <;> simp_all [pass, Command.skipAware, Command.opensBlock]

end Flow

end LineScript
