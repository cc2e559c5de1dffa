import LineScript.Machine.Perform
/-!
# Stages and cycles

`step` does one stage. `cycle` is what a host asks for: pending output goes
first, then a pending listing, then a break; and a step is only made by a
machine that runs and does not wait for a line. `execute` makes cycles until
one of them has something to tell.
-/

namespace LineScript

/-- The stage a decoded instruction enters: operands are read first, unless
there are none or the command has no use for their values. -/
def Instruction.firstStage (i : Instruction) : Stage :=
  if i.operands.isEmpty || !i.command.signature.readsOperands then .execute i []
  else .enumerate i []

namespace Machine

variable (m : Machine)

/-! ## Stages -/

/-- The machine in another stage. -/
def enter (stage : Stage) : Machine := { m with stage }

/-- The instruction of a command on the current line, from the text after its keyword. -/
def decode (c : Command) (rest : Text) : Instruction :=
  let s := c.signature
  let (args, operator) := Argument.parseAll rest s.operator (s.keeps m.config.args)
  { command := c
    operator
    operands := args.map fun arg => Operand.resolve arg m.line m.session.labels m.store }

/-- Decodes the current line. While lines are skipped, only the nesting of
blocks is watched. -/
def search : Machine :=
  if m.store.inputSlot ≤ m.line then m.enter .terminate
  else
    let offset := (m.store.leading m.line).offset
    let m := { m with store := m.store.terminateLabel m.line }
    let (word, rest) := (m.store.textFrom m.line offset).keyword
    let command := Command.ofKeyword? word
    if m.session.flow.isSkipping then
      let flow := match command with
        | some c => m.session.flow.pass c
        | none => m.session.flow
      { m with session := { m.session with flow } }.enter (.advance none none)
    else
      match command with
      | some c => m.enter (m.decode c rest).firstStage
      | none => m.enter (.advance none none)

/-- Reads one more operand. -/
def enumerate (i : Instruction) (v : Sources) : Machine :=
  let v := match i.operands[v.length]? with
    | some operand => v ++ [operand.value i.command.signature.domain m.store]
    | none => v
  m.enter (if i.operands.length ≤ v.length then .execute i v else .enumerate i v)

/-- Carries out the command. -/
def executeCommand (i : Instruction) (v : Sources) : Machine :=
  let (effect, m) := m.perform i v
  match effect with
  | .proceed write jump => m.enter (.advance (write.bind fun t => i.destination.map (·, t)) jump)
  | .ask prompt => m.enter (.awaiting prompt i.destination)
  | .pause deadline => m.enter (.sleeping deadline)
  | .halt => m.enter .terminate

/-- Writes the result and goes on. -/
def advance (write : Option (Nat × Text)) (jump : Option Nat) : Machine :=
  let line := jump.getD (m.line + 1)
  let stage := if m.store.inputSlot ≤ line then .terminate else .search
  { m with
    line, stage
    store := match write with
      | some (line, t) => m.store.writeIfPresent line t
      | none => m.store }

/-- Goes on if the clock has reached the deadline; if not, the board gets a tick. -/
def wake (deadline : Nat) : Machine :=
  let (now, clock) := m.board.clock.micros
  let m := { m with board := { m.board with clock } }
  if now < deadline then m.service else m.advance none none

/-- Ends the run and lists the script. -/
def terminate : Machine :=
  let (session, heap) := m.session.reset m.board.heap
  { m with
    session, board := { m.board with heap }
    line := 1, stage := .search, running := false, listing := some m.store.listing }

/-- Does one stage. -/
def step : Machine :=
  match m.stage with
  | .search => m.search
  | .enumerate i v => m.enumerate i v
  | .execute i v => m.executeCommand i v
  | .advance write jump => m.advance write jump
  | .awaiting _ _ => m
  | .sleeping deadline => m.wake deadline
  | .terminate => m.terminate

/-! ## Cycles -/

/-- Obeys a break: what runs is ended. -/
def obey : Machine :=
  if m.interrupted then
    { m with interrupted := false, stage := if m.running then .terminate else m.stage }
  else m

/-- Makes a step, unless there is something to tell instead. -/
def cycle : Option Event × Machine :=
  if !m.output.isEmpty then (some (.print m.output), { m with output := [] })
  else
    match m.listing with
    | some l => (some (.list l), { m with listing := none })
    | none =>
      let m := m.obey
      if !m.running then (some .stopped, m)
      else
        match m.stage with
        | .awaiting prompt _ => (some (.input prompt), m)
        | _ => (none, m.step)

/-- Makes at most so many cycles, up to the first that has something to tell. -/
def execute : (cycles : Nat) → Machine → Event × Machine
  | 0, m => (.running, m)
  | cycles + 1, m =>
    match m.cycle with
    | (some event, m) => (event, m)
    | (none, m) => execute cycles m

end Machine

end LineScript
