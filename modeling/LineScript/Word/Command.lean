import LineScript.Domain
import LineScript.Text
/-!
# Commands

The words that begin an instruction. Commands that differ only in the domain
they work in are one constructor with a parameter: `compute` for the four
arithmetic commands, `branch` and `loop` for the five conditionals and the
five conditional loops, `bitwise` for the logic of words.

`Signature` says what a command takes: how many operands it keeps, whether an
operator word is taken out of the line, and the domain its operands are read
in.
-/

namespace LineScript

/-- An operation on 32-bit patterns. -/
inductive Bitwise where
  | and | or | xor | not | shiftLeft | shiftRight
deriving DecidableEq

/-- A command. -/
inductive Command where
  -- results written to a line
  | compute (kind : Number)
  | bitwise (op : Bitwise)
  | rand
  | copy | move
  | append | extend
  | countLines | countBytes
  -- control transfer
  | jump | call | ret | push | pop | stop
  -- blocks
  | branch (sides : Comparand)
  | otherwise | endBranch
  | loop (sides : Comparand)
  | endLoop
  | count | next | leave
  -- terminal and time
  | print | sleep | input | read | setTime | getTime | cursor
  -- arrays and the board
  | array | free | picture
  | gpio | clearGpio | readGpio
  | sound | interruptSound | clearSound | beat
  | save | load
  -- the script itself
  | label | clear | pointer
deriving DecidableEq

namespace Command

/-- Every command. -/
def all : List Command :=
  Number.all.map compute
    ++ [Bitwise.and, .or, .xor, .not, .shiftLeft, .shiftRight].map bitwise
    ++ [rand, copy, move, append, extend, countLines, countBytes]
    ++ [jump, call, ret, push, pop, stop]
    ++ Comparand.all.map branch ++ [otherwise, endBranch]
    ++ Comparand.all.map loop ++ [endLoop, count, next, leave]
    ++ [print, sleep, input, read, setTime, getTime, cursor]
    ++ [array, free, picture, gpio, clearGpio, readGpio]
    ++ [sound, interruptSound, clearSound, beat, save, load, label, clear, pointer]

/-- The letter by which a conditional names what it compares. -/
def letter : Comparand → Text
  | .number .signed => []
  | .number .unsigned => ['u']
  | .number .decimal => ['b']
  | .number .float => ['f']
  | .text => ['s']

/-- The word a command is written as. -/
def keyword : Command → Text
  | compute .signed => "int".toList
  | compute .unsigned => "uint".toList
  | compute .decimal => "intb".toList
  | compute .float => "float".toList
  | bitwise .and => "and".toList
  | bitwise .or => "or".toList
  | bitwise .xor => "xor".toList
  | bitwise .not => "not".toList
  | bitwise .shiftLeft => "lsl".toList
  | bitwise .shiftRight => "lsr".toList
  | rand => "rand".toList
  | copy => "let".toList
  | move => "mov".toList
  | append => "append".toList
  | extend => "apd".toList
  | countLines => "vlen".toList
  | countBytes => "hlen".toList
  | jump => "jmp".toList
  | call => "call".toList
  | ret => "ret".toList
  | push => "push".toList
  | pop => "pop".toList
  | stop => "end".toList
  | branch sides => "if".toList ++ letter sides
  | otherwise => "else".toList
  | endBranch => "endif".toList
  | loop sides => "while".toList ++ letter sides
  | endLoop => "endwhile".toList
  | count => "for".toList
  | next => "next".toList
  | leave => "break".toList
  | print => "print".toList
  | sleep => "sleep".toList
  | input => "input".toList
  | read => "read".toList
  | setTime => "stime".toList
  | getTime => "gtime".toList
  | cursor => "csr".toList
  | array => "arr".toList
  | free => "free".toList
  | picture => "pict".toList
  | gpio => "gpio".toList
  | clearGpio => "clrgpio".toList
  | readGpio => "ingpio".toList
  | sound => "snd".toList
  | interruptSound => "intsnd".toList
  | clearSound => "clrsnd".toList
  | beat => "beat".toList
  | save => "save".toList
  | load => "load".toList
  | label => "label".toList
  | clear => "clear".toList
  | pointer => "ptr".toList

/-- The command a whole word is, if any. -/
def ofKeyword? (t : Text) : Option Command := all.find? (·.keyword = t)

/-- Whether the command opens a block. -/
def opensBlock : Command → Bool
  | branch _ | loop _ | count => true
  | _ => false

/-- Whether the command still counts while lines are being skipped. -/
def skipAware : Command → Bool
  | otherwise | endBranch | endLoop | next => true
  | c => c.opensBlock

end Command

/-! ## Signatures -/

/-- What a command takes from its line. -/
structure Signature where
  /-- The most operands it keeps; without bound if `none`. -/
  operands : Option Nat
  /-- Whether the first operator word is taken out of the line. -/
  operator : Bool := false
  /-- The domain its operands are read in. -/
  domain : Domain := .none
deriving DecidableEq

namespace Signature

/-- How many operands are kept when an instruction may have `limit`. -/
def keeps (s : Signature) (limit : Nat) : Nat :=
  match s.operands with
  | some n => min n limit
  | none => limit

/-- Whether operands are read before the command executes. -/
def readsOperands (s : Signature) : Bool := s.domain ≠ .none

end Signature

/-- The signature of each command. -/
def Command.signature : Command → Signature
  | compute kind => { operands := some 3, operator := true, domain := .number kind }
  | bitwise .not => { operands := some 2, domain := .logic }
  | bitwise _ => { operands := some 3, domain := .logic }
  | rand => { operands := some 1 }
  | copy | move | append | extend | countBytes => { operands := some 2, domain := .text }
  | countLines => { operands := some 2 }
  | jump | call | pop => { operands := some 1 }
  | push => { operands := some 1, domain := .text }
  | ret | stop | otherwise | endBranch | endLoop | leave => { operands := some 0 }
  | branch sides | loop sides => { operands := some 2, operator := true, domain := sides.domain }
  | count => { operands := some 2, domain := .number .unsigned }
  | next => { operands := some 1, domain := .number .unsigned }
  | print => { operands := none, domain := .text }
  | sleep => { operands := some 1, domain := .number .unsigned }
  | input | read => { operands := some 1 }
  | setTime => { operands := some 7, domain := .number .signed }
  | getTime => { operands := some 8 }
  | cursor => { operands := some 2, domain := .number .unsigned }
  | array => { operands := some 4, domain := .number .unsigned }
  | free | picture => { operands := some 1, domain := .number .unsigned }
  | gpio | clearGpio | readGpio | sound | interruptSound =>
    { operands := some 2, domain := .number .unsigned }
  | clearSound => { operands := some 0 }
  | beat => { operands := some 1, domain := .number .unsigned }
  | save | load => { operands := some 3, domain := .number .unsigned }
  | label | clear => { operands := some 0 }
  | pointer => { operands := some 2 }

end LineScript
