/-!
# Random words

What a machine draws its random numbers from: a stream of 32-bit words. Which
words a stream has is for its generator to say, and nothing here depends on it.
-/

namespace LineScript

/-- A random stream: its words, and how many have been drawn from it. -/
structure Random where
  words : Nat → UInt32
  drawn : Nat := 0

/-- Draws the next word. -/
def Random.next (r : Random) : UInt32 × Random := (r.words r.drawn, { r with drawn := r.drawn + 1 })

/-- Where streams come from: from a seed, or fresh, as no seed tells. -/
structure Generator where
  ofSeed : UInt64 → Random
  fresh : Random

/-- The stream for a seed, if there is one. -/
def Generator.stream (g : Generator) (seed : Option UInt64) : Random :=
  match seed with
  | some seed => g.ofSeed seed
  | none => g.fresh

/-- A generator without any chance in it. -/
instance : Inhabited Generator := ⟨{ ofSeed := fun _ => ⟨fun _ => 0, 0⟩, fresh := ⟨fun _ => 0, 0⟩ }⟩

end LineScript
