import LineScript.Processor
import LineScript.Random.ChaCha
/-!
# The command line

A processor at the terminal. Settings are given as arguments of the form
`name=value`, the names being `lines`, `row` and `seed`; without a seed the
random numbers differ from one session to the next. The board's clock counts
the time since the session began, and the chips are blank at its beginning.

The processor does all the work. Here its events are shown, its clock is told
what the next readings will be, and lines are read when it asks for them,
until there are no more.
-/

namespace LineScript

/-- The value of a setting among the arguments, the first if there are several. -/
def argument? (name : String) (args : List String) : Option Text :=
  let key := (name ++ "=").toList
  args.findSome? fun arg =>
    let t := arg.toList
    if t.take key.length = key then some (t.drop key.length) else none

namespace Processor

/-- The processor with a clock whose next reading counts to so many
microseconds. The readings after it do not advance. -/
def awaitReading (p : Processor) (elapsed : Nat) : Processor :=
  let clock := p.board.clock
  let passing := fun n => if n = clock.readings then elapsed - clock.elapsed else 0
  { p with board := { p.board with clock := { clock with passing } } }

/-- How many cycles are made between two ticks of the timer. -/
def cyclesPerTick : Nat := 5000

end Processor

namespace Terminal

/-- Shows a text. -/
def emit (t : Text) : IO Unit := do
  let out ← IO.getStdout
  out.putStr (String.ofList t)
  out.flush

/-- Reads a line under a prompt, if there is another. -/
def ask (prompt : Text) : IO (Option Text) := do
  emit prompt
  let line ← (← IO.getStdin).getLine
  if line.isEmpty then return none
  else return some (line.toList.takeWhile (· ≠ '\n'))

/-- Runs a processor until the input ends. -/
def converse (p : Processor) : IO Unit := do
  let start ← IO.monoNanosNow
  let mut processor := p
  repeat
    let elapsed := ((← IO.monoNanosNow) - start) / 1000
    let (event, next) := (processor.awaitReading elapsed).execute Processor.cyclesPerTick
    processor := next.service
    match event with
    | .running => pure ()
    | .print t => emit t
    | .list l => emit (l.decorate Style.ansi)
    | .stopped =>
      match ← ask "> ".toList with
      | some t => processor := (processor.receive t).2
      | none => break
    | .input prompt =>
      match ← ask prompt with
      | some t => processor := (processor.receive t).2
      | none => break

end Terminal

/-- The words that the bytes stand for, four bytes each, lowest first. -/
def keyOfBytes (bytes : ByteArray) : Vector UInt32 8 :=
  Vector.ofFn fun i : Fin 8 =>
    (List.range 4).foldr (fun j word => word <<< 8 ||| (bytes.toList.getD (4 * i + j) 0).toUInt32) 0

end LineScript

open LineScript in
/-- Runs a processor with the settings that the arguments give. -/
def main (args : List String) : IO Unit := do
  let key := keyOfBytes (← IO.getRandomBytes 32)
  let processor := do
    let config ← Config.ofSettings (argument? "lines" args) (argument? "row" args)
      (argument? "seed" args)
    Processor.new config { clock := .stepped 0 } (ChaCha.generator key)
  match processor with
  | .ok p => Terminal.converse p
  | .error fault => IO.eprintln (String.ofList fault.message)
