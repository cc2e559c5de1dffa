import LineScript.Machine
import LineScript.Machine.Transfer
import LineScript.Terminal
/-!
# What commands do

`perform` carries out one instruction on its sources. What it does to the
lines, the session and the board is done at once; the write of its result and
its jump are left to the stage after it, as an `Effect`. A command whose
operator has no meaning in its domain, or whose target or array does not
exist, does nothing.
-/

namespace LineScript

/-- What remains to be done after a command. -/
inductive Effect where
  /-- Write a result to the destination, and go on at the target or else at
  the next line. -/
  | proceed (write : Option Text) (jump : Option Nat)
  /-- Wait for a line. -/
  | ask (prompt : Text)
  /-- Wait for a reading of the clock. -/
  | pause (deadline : Nat)
  /-- End the run. -/
  | halt

namespace Effect

/-- Nothing but to go on. -/
def next : Effect := proceed none none

/-- A result to write. -/
def write (t : Text) : Effect := proceed (some t) none

/-- A line to go on at, if there is one. -/
def jump (target : Option Nat) : Effect := proceed none target

/-- Whether the effect is to end the run. -/
def halts : Effect → Bool
  | halt => true
  | _ => false

end Effect

namespace Machine

variable (m : Machine)

/-! ## Control -/

/-- Starts to skip lines. -/
def skip (reason : Skip) : Machine :=
  { m with session := { m.session with flow := Flow.start reason } }

/-- Puts the current line on the link stack. -/
def pushLink : Machine :=
  { m with session := { m.session with link := m.session.link.push m.line } }

/-- Takes a line off the link stack. -/
def popLink : Option Nat × Machine :=
  let (line, link) := m.session.link.pop
  (line, { m with session := { m.session with link } })

/-- Enters a loop whose head is the current line, or skips it. -/
def enterLoop (taken : Bool) : Machine := if taken then m.pushLink else m.skip .loop

/-! ## Output -/

/-- Adds to the printed text. -/
def print (t : Text) : Machine := { m with output := m.output ++ t }

/-! ## Lines -/

/-- Writes one number per operand that is a line. -/
def writeFields (operands : List Operand) (fields : List Int) : Machine :=
  let store := (operands.zip fields).foldl (fun s (operand, n) =>
    match operand.line? with
    | some line => s.writeIfPresent line (Text.ofInt n)
    | none => s) m.store
  { m with store }

/-- The unsigned words that `count` lines read as, from `start` on. -/
def wordsOfLines (start count : Nat) : List UInt32 :=
  ((m.store.slots.toList.drop start).take count).map fun slot => Numeral.toBits slot.text

/-! ## Arrays and the board -/

/-- Makes an array. One that cannot be made leaves its entry empty. -/
def createArray (id : Nat) (elements : List UInt32) (width : Nat) : Machine :=
  let (_, arrays, heap) := m.session.arrays.create m.board.heap id elements width
  { m with session := { m.session with arrays }, board := { m.board with heap } }

/-- Gives an array back. -/
def freeArray (id : Nat) : Machine :=
  let (_, arrays, heap) := m.session.arrays.free m.board.heap id
  { m with session := { m.session with arrays }, board := { m.board with heap } }

/-- Gives all arrays back. -/
def freeArrays : Machine :=
  let (arrays, heap) := m.session.arrays.freeAll m.board.heap
  { m with session := { m.session with arrays }, board := { m.board with heap } }

/-- An array as its elements and the bits of each, if it can be read. -/
def array? (id : Nat) : Option (List UInt32 × Nat) :=
  match m.session.arrays.get? id, m.session.arrays.elements m.board.heap id with
  | some entry, .ok elements => some (elements, 8 * entry.width.bytes)
  | _, _ => none

/-- Does something with the elements of an array, if it can be read. -/
def withArray (id : Nat) (f : List UInt32 → Board → Board) : Machine :=
  match m.array? id with
  | some (elements, _) => { m with board := f elements m.board }
  | none => m

/-- Sets the date and then the time. -/
def setClock (v : Sources) : Machine :=
  let word := fun index => (v.signed index).toUInt32.toNat
  let clock := m.board.clock.setDate ⟨(v.signed 0).toInt, word 1, word 2⟩
  let clock := clock.setTime (word 3) (word 4) (word 5) (word 6)
  { m with board := { m.board with clock } }

/-- Saves the lines from one to another: how many are tried, and the chips after that. -/
def saveSweep (chip first last : Nat) : Nat × Eeprom :=
  Transfer.save chip m.store (last + 1 - first) first m.board.eeprom

/-- Loads the lines from one to another: how many are tried, and the lines and
chips after that. -/
def loadSweep (chip first last : Nat) : Nat × (Store × Eeprom) :=
  Transfer.load chip (last + 1 - first) first m.store m.board.eeprom

/-- The machine after lines were saved. -/
def saveLines (chip first last : Nat) : Machine :=
  let (_, eeprom) := m.saveSweep chip first last
  { m with board := { m.board with eeprom } }

/-- The machine after lines were loaded. -/
def loadLines (chip first last : Nat) : Machine :=
  let (_, store, eeprom) := m.loadSweep chip first last
  { m with store, board := { m.board with eeprom } }

/-! ## All commands -/

/-- Carries out an instruction. -/
def perform (i : Instruction) (v : Sources) : Effect × Machine :=
  match i.command with
  | .compute kind => (.proceed (v.compute kind (i.operator.getD (.binary .add))) none, m)
  | .bitwise op => (.write (Text.ofBits (Arithmetic.bitwise op (v.unsigned 1) (v.unsigned 2))), m)
  | .rand =>
    let (word, random) := m.random.next
    (.write (Text.ofBits word), { m with random })
  | .copy | .move => (.write (v.text 1), m)
  | .append | .extend => (.write (v.text 0 ++ v.text 1), m)
  | .countLines => (.write (Text.ofNat (m.store.filledFrom ((i.target 1).getD 0))), m)
  | .countBytes => (.write (Text.ofNat (Utf8.size (v.text 1))), m)
  | .jump => (.jump (i.target 0), m)
  | .call =>
    match i.target 0 with
    | some target => (.jump (some target), m.pushLink)
    | none => (.next, m)
  | .ret =>
    let (line, m) := m.popLink
    (.jump (line.map (· + 1)), m)
  | .push =>
    let (session, store) := m.session.push m.store (v.text 0)
    (.next, { m with session, store })
  | .pop =>
    let (t, session, store) := m.session.pop m.store
    (.proceed t none, { m with session, store })
  | .stop => (.halt, m)
  | .branch sides =>
    if v.holds sides (i.operator.getD (.comparison .eq)) then (.next, m)
    else (.next, m.skip .branch)
  | .otherwise => (.next, m.skip .branch)
  | .endBranch => (.next, m)
  | .loop sides => (.next, m.enterLoop (v.holds sides (i.operator.getD (.comparison .eq))))
  | .endLoop =>
    let (line, m) := m.popLink
    (.jump line, m)
  | .count => (.next, m.enterLoop (v.unsigned 0 ≤ v.unsigned 1))
  | .next =>
    let (line, m) := m.popLink
    (.proceed (some (Text.ofUInt32 (v.unsigned 0 + 1))) line, m)
  | .leave =>
    let (_, m) := m.popLink
    (.next, m.skip .loop)
  | .print => (.next, m.print (v.flatMap fun value => Terminal.expand value.render))
  | .sleep =>
    let (now, clock) := m.board.clock.micros
    (.pause (now + v.number 0 * 1000), { m with board := { m.board with clock } })
  | .input => (.ask "? ".toList, m)
  | .read => (.ask [], m)
  | .setTime => (.next, m.setClock v)
  | .getTime =>
    let (now, clock) := m.board.clock.now
    let m := { m with board := { m.board with clock } }
    (.next, m.writeFields i.operands now.fields)
  | .cursor => (.next, m.print (Terminal.moveTo (v.unsigned 0) (v.unsigned 1)))
  | .array =>
    (.next, m.createArray (v.number 0) (m.wordsOfLines (v.number 1) (v.number 2)) (v.number 3))
  | .free => (.next, m.freeArray (v.number 0))
  | .picture =>
    match m.array? (v.number 0) with
    | some (elements, bits) => (.next, m.print (Terminal.picture bits elements))
    | none => (.next, m)
  | .gpio =>
    (.next, m.withArray (v.number 0) fun pattern b =>
      { b with gpio := b.gpio.set pattern (v.number 1) })
  | .clearGpio =>
    let gpio := m.board.gpio.clear (v.unsigned 0) (v.unsigned 1 ≠ 0)
    (.next, { m with board := { m.board with gpio } })
  | .readGpio => (.write (if m.board.gpio.input (v.unsigned 1) then ['1'] else ['0']), m)
  | .sound =>
    (.next, m.withArray (v.number 0) fun notes b =>
      { b with sound := b.sound.set notes (v.number 1) })
  | .interruptSound =>
    (.next, m.withArray (v.number 0) fun notes b =>
      { b with sound := b.sound.interrupt notes (v.number 1) })
  | .clearSound => (.next, { m with board := { m.board with sound := m.board.sound.clear } })
  | .beat =>
    (.next, { m with board := { m.board with sound := m.board.sound.setBeat (v.unsigned 0) } })
  | .save => (.next, m.saveLines (v.number 0) (v.number 1) (v.number 2))
  | .load => (.next, m.loadLines (v.number 0) (v.number 1) (v.number 2))
  | .label =>
    let (labels, store) := m.session.labels.rebuild m.store m.line
    (.next, { m with session := { m.session with labels }, store })
  | .clear => (.halt, { m with store := m.store.clear }.freeArrays)
  | .pointer =>
    match i.target 1 with
    | some n => (.write (Text.ofNat n), m)
    | none => (.next, m)

end Machine

end LineScript
