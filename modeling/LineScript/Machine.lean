import LineScript.Board
import LineScript.Machine.Sources
import LineScript.Operand
import LineScript.Random
import LineScript.Session
import LineScript.Store.Listing
/-!
# The machine

A machine runs the script in its line store one stage at a time, so that its
host can attend to other things between any two of them. An instruction goes
through the stages `search`, `enumerate` (once per operand), `execute` and
`advance`; commands that only point at lines skip the second. Instead of
advancing, an instruction may wait for a line of input or for a time.

Each stage holds what it needs and no more: the instruction while it is being
read and executed, the pending write and jump when it is done, the deadline of
a sleep. This is the machine to reason with. The processor that runs has
registers instead, which hold anything at any time; it is shown to do the same.
-/

namespace LineScript

/-- A decoded line. -/
structure Instruction where
  command : Command
  operator : Option Operator
  operands : List Operand

/-- The line that receives the result of an instruction. -/
def Instruction.destination (i : Instruction) : Option Nat := i.operands.head?.bind Operand.line?

/-- The line that an operand of an instruction points at. -/
def Instruction.target (i : Instruction) (index : Nat) : Option Nat :=
  i.operands[index]?.bind Operand.target?

/-- Where an instruction stands. -/
inductive Stage where
  /-- The current line is to be decoded. -/
  | search
  /-- Some operands have been read. -/
  | enumerate (i : Instruction) (sources : Sources)
  /-- The command is to be carried out. -/
  | execute (i : Instruction) (sources : Sources)
  /-- The result is to be written, and then the next line is found. -/
  | advance (write : Option (Nat × Text)) (jump : Option Nat)
  /-- A line is awaited, for the given destination. -/
  | awaiting (prompt : Text) (destination : Option Nat)
  /-- A reading of the clock is awaited. -/
  | sleeping (deadline : Nat)
  /-- The run is to be ended. -/
  | terminate

/-- The phases of an instruction. -/
inductive Phase where
  | search | enumerate | execute | advance | terminate
deriving DecidableEq

/-- The phase a stage belongs to. Waiting, for a line or for a time, is part of
the fourth. -/
def Stage.phase : Stage → Phase
  | search => .search
  | enumerate _ _ => .enumerate
  | execute _ _ => .execute
  | advance _ _ | awaiting _ _ | sleeping _ => .advance
  | terminate => .terminate

/-- A machine. -/
structure Machine where
  config : Config
  store : Store
  session : Session
  board : Board
  random : Random
  /-- The line of the current instruction. -/
  line : Nat := 1
  stage : Stage := .search
  /-- Text that was printed and not yet shown. -/
  output : Text := []
  running : Bool := false
  /-- The line the editor writes to. -/
  cursor : Nat := 1
  /-- A listing that was asked for and not yet shown. -/
  listing : Option Listing := none
  /-- Whether a break was received and not yet obeyed. -/
  interrupted : Bool := false

/-- What a machine tells its host. -/
inductive Event where
  /-- Nothing runs. -/
  | stopped
  /-- The cycles are used up. -/
  | running
  | print (t : Text)
  | list (l : Listing)
  /-- A line is awaited, under a prompt. -/
  | input (prompt : Text)

namespace Machine

/-- A machine with a blank store. -/
def new (c : Config) (board : Board) (g : Generator) : Except Fault Machine := do
  let c ← c.validate
  return {
    config := c
    store := Store.new c.lines c.row
    session := Session.new c
    board
    random := g.stream c.seed }

variable (m : Machine)

/-- The last line of a script. -/
def lastLine : Nat := m.store.inputSlot - 1

/-- The break signal. It is obeyed at the next cycle. -/
def interrupt : Machine := { m with interrupted := true }

/-- A tick of the board's timer. -/
def service : Machine := { m with board := m.board.service }

end Machine

end LineScript
