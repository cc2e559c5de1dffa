import LineScript.Machine.Step
/-!
# Entering lines

A line that is entered goes to a command that awaits one; while anything else
runs it is ignored. When nothing runs it is for the editor, which has a
cursor on one of the lines of the script and takes every text that is not an
editor command as the new text of that line.
-/

namespace LineScript

/-- A line as the editor takes it. -/
inductive Edit where
  | run
  | clear
  | set (number : Text)
  | insert
  | delete
  | list
  | write (t : Text)
deriving DecidableEq

/-- Tells editor commands from lines of the script. All but `set` stand alone,
and `set` does not. -/
def Edit.ofText (t : Text) : Edit :=
  let (word, rest) := t.keyword
  let rest := rest.trim
  if rest.isEmpty then
    if word = "run".toList then run
    else if word = "clear".toList then clear
    else if word = "insert".toList then insert
    else if word = "delete".toList then delete
    else if word = "list".toList then list
    else write t
  else if word = "set".toList then set rest
  else write t

namespace Machine

variable (m : Machine)

/-- Starts the script at line 1. -/
def run : Machine :=
  let (session, heap) := m.session.reset m.board.heap
  let (labels, store) := session.labels.rebuild m.store 1
  { m with
    store, session := { session with labels }, board := { m.board with heap }
    line := 1, stage := .search, running := true }

/-- Empties the store and ends as a script would. -/
def clearAll : Machine :=
  { m with
    store := m.store.clear, cursor := 1, running := true, line := 1, stage := .terminate }

/-- Takes over the store after a change; that it may have failed is not told. -/
def edited (change : Option Fault × Store) : Machine := { m with store := change.2 }

/-- Moves the cursor, if there is such a line in the script. -/
def moveCursor (number : Option Nat) : Machine :=
  match number with
  | some n => if 1 ≤ n ∧ n ≤ m.lastLine then { m with cursor := n } else m
  | none => m

/-- Obeys the editor. -/
def edit : Edit → Machine
  | .run => m.run
  | .clear => m.clearAll
  | .set number => m.moveCursor number.toNat?
  | .insert => m.edited (m.store.insert m.cursor m.lastLine)
  | .delete => m.edited (m.store.remove m.cursor m.lastLine)
  | .list => { m with listing := some m.store.listing }
  | .write t =>
    { m.edited (m.store.write m.cursor t) with cursor := min (m.cursor + 1) m.lastLine }

/-- The character that is a break signal when it is entered. -/
def breakChar : Char := '\x03'

/-- Takes an entered line, and says whether it was of use. -/
def receive (t : Text) : Bool × Machine :=
  if breakChar ∈ t then (false, m.interrupt)
  else
    let slot := m.store.inputSlot
    if m.running then
      match m.stage with
      | .awaiting _ destination =>
        let store := m.store.writeIfPresent slot t
        (true, { m with
          store, stage := .advance (destination.map (·, store.line slot)) none })
      | _ => (false, m)
    else
      (true, { m with store := m.store.writeIfPresent slot t }.edit (Edit.ofText t.trim))

end Machine

end LineScript
