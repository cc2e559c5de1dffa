import LineScript.Text
/-!
# Binary64 numbers

A finite binary64 number is a mantissa times a power of two. `render` writes
the fewest digits that read back as the same number; of two such digit
strings it takes the nearer to the number, and of two equally near the larger.
It never writes an exponent. `remainder` is exact.
-/

namespace LineScript

/-- The parts of a binary64 number. -/
inductive Binary64 where
  | nan
  | infinite (negative : Bool)
  /-- The number `mantissa * 2 ^ exponent`, with the given sign. -/
  | finite (negative : Bool) (mantissa : Nat) (exponent : Int)

namespace Binary64

/-- The exponent of the smallest numbers. -/
def minExponent : Int := -1074

/-- Takes a number apart. -/
def ofFloat (f : Float) : Binary64 :=
  let bits := f.toBits.toNat
  let negative : Bool := 2 ^ 63 ≤ bits
  let exponent : Nat := bits / 2 ^ 52 % 2 ^ 11
  let fraction : Nat := bits % 2 ^ 52
  if exponent = 2 ^ 11 - 1 then
    if fraction = 0 then infinite negative else nan
  else if exponent = 0 then finite negative fraction minExponent
  else finite negative (2 ^ 52 + fraction) ((exponent : Int) - 1 + minExponent)

/-- The number `mantissa * 2 ^ exponent`, for a mantissa below `2 ^ 53` and an
exponent that is not too small. -/
def ofParts (negative : Bool) (mantissa : Nat) (exponent : Int) : Float :=
  -- as far to the left as the mantissa's width and the least exponent allow
  let shift := if mantissa = 0 then 0
    else min (52 - mantissa.log2) (exponent - minExponent).toNat
  let mantissa := mantissa * 2 ^ shift
  let biased := if mantissa < 2 ^ 52 then 0 else (exponent - shift - minExponent + 1).toNat
  let sign := if negative then 2 ^ 63 else 0
  Float.ofBits (sign + biased * 2 ^ 52 + mantissa % 2 ^ 52).toUInt64

/-! ## Shortest digits -/

/-- A number `mid / den` and the numbers that round to it: those between
`low / den` and `high / den`, with the ends if `closed`. -/
structure Rounding where
  low : Nat
  mid : Nat
  high : Nat
  den : Nat
  closed : Bool

/-- The numbers that round to `mantissa * 2 ^ exponent`. The neighbour below a
power of two is half as far away as the one above it. -/
def Rounding.of (mantissa : Nat) (exponent : Int) : Rounding :=
  let below := if mantissa = 2 ^ 52 ∧ minExponent < exponent then 1 else 2
  let unit := 2 ^ (exponent - 2).toNat
  { low := (4 * mantissa - below) * unit
    mid := 4 * mantissa * unit
    high := (4 * mantissa + 2) * unit
    den := 2 ^ (2 - exponent).toNat
    closed := mantissa % 2 = 0 }

/-- How often `mid` must be multiplied by ten to reach `den`, at most `fuel` times. -/
def zerosAfterPoint (mid den : Nat) : (fuel : Nat) → Nat
  | 0 => 0
  | fuel + 1 => if den ≤ mid then 0 else zerosAfterPoint (mid * 10) den fuel + 1

/-- The exponent `k` for which the number is at least `10 ^ (k - 1)` and below `10 ^ k`. -/
def Rounding.magnitude (r : Rounding) : Int :=
  if r.den ≤ r.mid then ((Text.ofNat (r.mid / r.den)).length : Nat)
  else 1 - (zerosAfterPoint r.mid r.den 400 : Nat)

/-- The multiple of `10 ^ grid` that rounds to the number and is nearest to it. -/
def Rounding.onGrid? (r : Rounding) (grid : Int) : Option Nat :=
  let step := r.den * 10 ^ grid.toNat
  let scale := 10 ^ (-grid).toNat
  let c := r.mid * scale / step
  let within := fun x y : Nat => if r.closed then decide (x ≤ y) else decide (x < y)
  let lower := within (r.low * scale) (c * step)
  let upper := within ((c + 1) * step) (r.high * scale)
  if lower ∧ (¬ upper ∨ 2 * (r.mid * scale) < (2 * c + 1) * step) then some c
  else if upper then some (c + 1)
  else none

/-- The digits of the number, and the power of ten they are multiplied by.
Seventeen digits are always enough. -/
def Rounding.shortest (r : Rounding) : Nat × Int :=
  let k := r.magnitude
  ((List.range 17).findSome? fun n : Nat =>
    let grid : Int := k - (n + 1)
    (r.onGrid? grid).map (·, grid)).getD (0, 0)

/-! ## Text -/

/-- Drops zeros from the end of a fraction of `places` digits. -/
def dropZeros (digits : Nat) : (places : Nat) → Nat × Nat
  | 0 => (digits, 0)
  | places + 1 =>
    if digits % 10 = 0 then dropZeros (digits / 10) places else (digits, places + 1)

/-- The number `digits / 10 ^ places` in positional notation. -/
def positional (digits places : Nat) : Text :=
  let (digits, places) := dropZeros digits places
  if places = 0 then Text.ofNat digits
  else
    Text.ofNat (digits / 10 ^ places) ++
      '.' :: Text.padLeft places '0' (Text.ofNat (digits % 10 ^ places))

/-- A number as text. -/
def render : Binary64 → Text
  | nan => "NaN".toList
  | infinite negative => (if negative then ['-'] else []) ++ "inf".toList
  | finite negative mantissa exponent =>
    let sign := if negative then ['-'] else []
    if mantissa = 0 then sign ++ ['0']
    else
      let (digits, power) := (Rounding.of mantissa exponent).shortest
      sign ++ positional (digits * 10 ^ power.toNat) (-power).toNat

/-! ## Remainder -/

/-- What is left of `x` after taking away the multiple of `y` next to it on
the side of zero. It has the sign of `x`. -/
def remainder (x y : Float) : Float :=
  match ofFloat x, ofFloat y with
  | finite negative m e, finite _ m' e' =>
    if m' = 0 then 0 / 0
    else
      let low := min e e'
      ofParts negative (m * 2 ^ (e - low).toNat % (m' * 2 ^ (e' - low).toNat)) low
  | finite .., infinite _ => x
  | _, _ => 0 / 0

end Binary64

end LineScript
