import LineScript.Machine.Host
/-!
# The processor

The machine as it is run: the instruction in flight is kept in registers. Any
register can hold anything in any phase, and each phase sets and clears the
ones it is concerned with. That no instruction finds what another has left
behind, and no wait or jump survives a break, is for the phases to see to.

What a command does to the lines, the session and the board, it does as on a
`Machine`; the processor keeps the rest.
-/

namespace LineScript

/-! ## Registers -/

/-- What an instruction waits for before it advances. -/
inductive Suspension where
  | line (prompt : Text)
  | time (deadline : Nat)
deriving DecidableEq

/-- The registers of the instruction in flight. -/
structure Pipeline where
  phase : Phase := .search
  line : Nat := 1
  command : Option Command := none
  operator : Option Operator := none
  operands : List Operand := []
  /-- The values of the operands read so far. -/
  sources : Sources := []
  /-- The line to go on at, if it is not the next one. -/
  jump : Option Nat := none
  /-- A text to write before going on, and its line. -/
  writeback : Option (Nat × Text) := none
  suspension : Option Suspension := none

namespace Pipeline

variable (r : Pipeline)

/-- Forgets the instruction. -/
def clearScratch : Pipeline :=
  { r with command := none, operator := none, operands := [], sources := [] }

/-- The line that receives the result of the instruction. -/
def destination : Option Nat := r.operands.head?.bind Operand.line?

/-- Keeps a text to write, if there is a line that receives it. -/
def keep (t : Text) : Pipeline :=
  match r.destination with
  | some line => { r with writeback := some (line, t) }
  | none => r

end Pipeline

namespace Effect

/-- The result to write. -/
def result? : Effect → Option Text
  | proceed write _ => write
  | _ => none

/-- The line to go on at. -/
def target? : Effect → Option Nat
  | proceed _ jump => jump
  | _ => none

/-- What is to be waited for. -/
def suspension? : Effect → Option Suspension
  | ask prompt => some (.line prompt)
  | pause deadline => some (.time deadline)
  | _ => none

end Effect

/-- A processor. -/
structure Processor where
  config : Config
  store : Store
  session : Session
  board : Board
  random : Random
  pipeline : Pipeline := {}
  /-- Text that was printed and not yet shown. -/
  output : Text := []
  running : Bool := false
  /-- The line the editor writes to. -/
  cursor : Nat := 1
  /-- A listing that was asked for and not yet shown. -/
  listing : Option Listing := none
  /-- Whether a break was received and not yet obeyed. -/
  interrupted : Bool := false

namespace Processor

/-- A processor with a blank store. -/
def new (c : Config) (board : Board) (g : Generator) : Except Fault Processor := do
  let c ← c.validate
  return {
    config := c
    store := Store.new c.lines c.row
    session := Session.new c
    board
    random := g.stream c.seed }

variable (p : Processor)

/-- The break signal. It is obeyed at the next cycle. -/
def interrupt : Processor := { p with interrupted := true }

/-- A tick of the board's timer. -/
def service : Processor := { p with board := p.board.service }

/-! ## Commands -/

/-- The machine that commands are carried out on. -/
def bench : Machine where
  config := p.config
  store := p.store
  session := p.session
  board := p.board
  random := p.random
  line := p.pipeline.line
  output := p.output
  running := p.running
  cursor := p.cursor
  listing := p.listing
  interrupted := p.interrupted

/-- Carries out a command with the registers as they are. -/
def dispatch (c : Command) : Effect × Processor :=
  let i := { command := c, operator := p.pipeline.operator, operands := p.pipeline.operands }
  let (effect, m) := p.bench.perform i p.pipeline.sources
  (effect, { p with
    store := m.store, session := m.session, board := m.board, random := m.random
    output := m.output })

/-! ## Phases -/

/-- The processor in another phase. -/
def enter (phase : Phase) : Processor := { p with pipeline := { p.pipeline with phase } }

/-- Decodes the current line. While lines are skipped, only the nesting of
blocks is watched. -/
def search : Processor :=
  let line := p.pipeline.line
  if p.store.inputSlot ≤ line then p.enter .terminate
  else
    match p.store.skipLeading line with
    | (.error _, store) => { p with store }.enter .terminate
    | (.ok leading, store) =>
      let p := { p with store }
      let (word, rest) := (p.store.textFrom line leading.offset).keyword
      match Command.ofKeyword? word, p.session.flow.isSkipping with
      | some c, true =>
        { p with session := { p.session with flow := p.session.flow.pass c } }.enter .advance
      | none, _ => p.enter .advance
      | some c, false =>
        let s := c.signature
        let (args, operator) := Argument.parseAll rest s.operator (s.keeps p.config.args)
        let operands := args.map fun arg => Operand.resolve arg line p.session.labels p.store
        let phase := if operands.isEmpty || !s.readsOperands then .execute else .enumerate
        { p with pipeline := { p.pipeline with command := some c, operator, operands, phase } }

/-- Reads one more operand. -/
def enumerate : Processor :=
  match p.pipeline.command with
  | none => p.enter .advance
  | some c =>
    let sources := match p.pipeline.operands[p.pipeline.sources.length]? with
      | some operand => p.pipeline.sources ++ [operand.value c.signature.domain p.store]
      | none => p.pipeline.sources
    let p := { p with pipeline := { p.pipeline with sources } }
    if p.pipeline.operands.length ≤ sources.length then p.enter .execute else p

/-- Carries out the command. -/
def executeCommand : Processor :=
  match p.pipeline.command with
  | none => p.enter .advance
  | some c =>
    let (effect, p) := p.dispatch c
    if effect.halts then p.enter .terminate
    else
      let pipeline := match effect.result? with
        | some t => p.pipeline.keep t
        | none => p.pipeline
      { p with
        pipeline := { pipeline with
          jump := effect.target?, suspension := effect.suspension?, phase := .advance } }

/-- Writes what is to be written and goes on at the next line. -/
def goOn : Processor :=
  let store := match p.pipeline.writeback with
    | some (line, t) => p.store.writeIfPresent line t
    | none => p.store
  let line := p.pipeline.jump.getD (p.pipeline.line + 1)
  let pipeline := { p.pipeline with writeback := none, jump := none }.clearScratch
  let phase := if store.inputSlot ≤ line then .terminate else .search
  { p with store, pipeline := { pipeline with line, phase } }

/-- Goes on if nothing is waited for, or the clock has reached the deadline; if
it has not, the board gets a tick. -/
def advance : Processor :=
  match p.pipeline.suspension with
  | some (.line _) => p
  | some (.time deadline) =>
    let (now, clock) := p.board.clock.micros
    let p := { p with board := { p.board with clock } }
    if now < deadline then p.service
    else { p with pipeline := { p.pipeline with suspension := none } }.goOn
  | none => p.goOn

/-- Ends the run and lists the script. -/
def terminate : Processor :=
  let (session, heap) := p.session.reset p.board.heap
  { p with
    session, board := { p.board with heap }
    pipeline := {}, running := false, listing := some p.store.listing }

/-- Does one phase. -/
def step : Processor :=
  match p.pipeline.phase with
  | .search => p.search
  | .enumerate => p.enumerate
  | .execute => p.executeCommand
  | .advance => p.advance
  | .terminate => p.terminate

/-! ## Cycles -/

/-- Obeys a break: what runs is ended. -/
def obey : Processor :=
  if p.interrupted then
    let p := { p with interrupted := false }
    if p.running then
      { p with pipeline := { p.pipeline with suspension := none, phase := .terminate } }
    else p
  else p

/-- Makes a step, unless there is something to tell instead. -/
def cycle : Option Event × Processor :=
  if !p.output.isEmpty then (some (.print p.output), { p with output := [] })
  else
    match p.listing with
    | some l => (some (.list l), { p with listing := none })
    | none =>
      let p := p.obey
      if !p.running then (some .stopped, p)
      else
        match p.pipeline.suspension with
        | some (.line prompt) => (some (.input prompt), p)
        | _ => (none, p.step)

/-- Makes at most so many cycles, up to the first that has something to tell. -/
def execute : (cycles : Nat) → Processor → Event × Processor
  | 0, p => (.running, p)
  | cycles + 1, p =>
    match p.cycle with
    | (some event, p) => (event, p)
    | (none, p) => execute cycles p

/-! ## Entered lines -/

/-- The last line of a script. -/
def lastLine : Nat := p.store.inputSlot - 1

/-- Starts the script at line 1. -/
def run : Processor :=
  let (session, heap) := p.session.reset p.board.heap
  let (labels, store) := session.labels.rebuild p.store 1
  { p with
    store, session := { session with labels }, board := { p.board with heap }
    pipeline := {}, running := true }

/-- Obeys the editor. -/
def edit : Edit → Processor
  | .run => p.run
  | .clear =>
    { p with
      store := p.store.clear, cursor := 1, running := true, pipeline := { phase := .terminate } }
  | .set number =>
    match number.toNat? with
    | some n => if 1 ≤ n ∧ n ≤ p.lastLine then { p with cursor := n } else p
    | none => p
  | .insert => { p with store := (p.store.insert p.cursor p.lastLine).2 }
  | .delete => { p with store := (p.store.remove p.cursor p.lastLine).2 }
  | .list => { p with listing := some p.store.listing }
  | .write t =>
    { p with store := (p.store.write p.cursor t).2, cursor := min (p.cursor + 1) p.lastLine }

/-- Takes an entered line, and says whether it was of use. -/
def receive (t : Text) : Bool × Processor :=
  if Machine.breakChar ∈ t then (false, p.interrupt)
  else
    let slot := p.store.inputSlot
    let noted := { p with store := (p.store.write slot t).2 }
    if p.running then
      match p.pipeline.suspension with
      | some (.line _) =>
        let pipeline := noted.pipeline.keep (noted.store.line slot)
        (true, { noted with pipeline := { pipeline with suspension := none } })
      | _ => (false, p)
    else (true, noted.edit (Edit.ofText t.trim))

/-! ## Hosts -/

/-- Answers a call. -/
def call : HostCall → Reply × Processor
  | .receive t =>
    let (used, p) := p.receive t
    (.received used, p)
  | .execute cycles =>
    let (event, p) := p.execute cycles
    (.event event, p)
  | .interrupt => (.made none, p.interrupt)
  | .service => (.made none, p.service)
  | .change c =>
    let (fault, store) := p.store.apply c
    (.made fault, { p with store })

end Processor

end LineScript
