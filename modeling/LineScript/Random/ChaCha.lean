import LineScript.Random
/-!
# Random words from ChaCha blocks

Streams of the words of ChaCha blocks with twelve rounds, block after block,
under a key: one of its own, or one made from a 64-bit seed. The block number
stands in words 12 and 13 of the block and words 14 and 15 are zero.
-/

namespace LineScript

namespace ChaCha

/-- The words of a block. -/
abbrev Block := Vector UInt32 16

/-- Rotates a word to the left. -/
def rotateLeft (x n : UInt32) : UInt32 := (x <<< n) ||| (x >>> (32 - n))

/-- Rotates a word to the right. -/
def rotateRight (x n : UInt32) : UInt32 := if n = 0 then x else rotateLeft x (32 - n)

/-! ## The key -/

/-- The next state of the generator that makes the key. -/
def nextState (s : UInt64) : UInt64 := s * 6364136223846793005 + 11634580027462260723

/-- The word that a state of that generator gives. -/
def keyWord (s : UInt64) : UInt32 :=
  rotateRight (((s >>> 18) ^^^ s) >>> 27).toUInt32 (s >>> 59).toUInt32

/-- The next `count` words of the key. -/
def keyWords : (count : Nat) → UInt64 → List UInt32
  | 0, _ => []
  | count + 1, s => keyWord (nextState s) :: keyWords count (nextState s)

/-! ## Blocks -/

/-- One addition, exclusive or and rotation. -/
def mix (b : Block) (x y z : Fin 16) (n : UInt32) : Block :=
  let b := b.set x (b[x] + b[y])
  b.set z (rotateLeft (b[z] ^^^ b[x]) n)

/-- A quarter round on four words. -/
def quarterRound (b : Block) (x y z w : Fin 16) : Block :=
  mix (mix (mix (mix b x y w 16) z w y 12) x y w 8) z w y 7

/-- A round on the columns and one on the diagonals. -/
def doubleRound (b : Block) : Block :=
  let b := quarterRound b 0 4 8 12
  let b := quarterRound b 1 5 9 13
  let b := quarterRound b 2 6 10 14
  let b := quarterRound b 3 7 11 15
  let b := quarterRound b 0 5 10 15
  let b := quarterRound b 1 6 11 12
  let b := quarterRound b 2 7 8 13
  quarterRound b 3 4 9 14

/-- Twice as many rounds as the number says. -/
def rounds : Nat → Block → Block
  | 0, b => b
  | n + 1, b => rounds n (doubleRound b)

/-- The block with a number. -/
def block (key : Vector UInt32 8) (number : UInt64) : Block :=
  let constants : Vector UInt32 4 := #v[0x61707865, 0x3320646E, 0x79622D32, 0x6B206574]
  let counter : Vector UInt32 4 := #v[number.toUInt32, (number >>> 32).toUInt32, 0, 0]
  let start : Block := constants ++ key ++ counter
  (rounds 6 start).zipWith (· + ·) start

/-! ## Streams -/

/-- The stream of a key. -/
def stream (key : Vector UInt32 8) : Random :=
  { words := fun index => (block key (index / 16).toUInt64)[index % 16] }

/-- The stream of a seed. -/
def ofSeed (seed : UInt64) : Random :=
  let words := keyWords 8 seed
  stream (Vector.ofFn fun i : Fin 8 => words.getD i 0)

/-- Streams from seeds, and one whose key cannot be foreseen. -/
def generator (key : Vector UInt32 8) : Generator := { ofSeed, fresh := stream key }

end ChaCha

end LineScript
