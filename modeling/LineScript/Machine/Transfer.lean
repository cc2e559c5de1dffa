import LineScript.Board.Eeprom
import LineScript.Store
/-!
# Transfers between lines and chips

A line is kept on a chip at the address of its number times the width of a
slot, as all the bytes of its slot. Lines are transferred one after another
up to the first that fails; those before it stay transferred.
-/

namespace LineScript

namespace Transfer

/-- Tries `count` lines from `line` on up to the first that fails, and tells
how many it tried. -/
def sweep {σ : Type} (attempt : Nat → σ → Bool × σ) : (count line : Nat) → σ → Nat × σ
  | 0, _, x => (0, x)
  | count + 1, line, x =>
    match attempt line x with
    | (false, x) => (1, x)
    | (true, x) =>
      let (tried, x) := sweep attempt count (line + 1) x
      (tried + 1, x)

/-- What every attempt keeps, a sweep keeps. -/
theorem sweep_keeps {σ : Type} {attempt : Nat → σ → Bool × σ} {P : σ → Prop} {count line : Nat}
    {x : σ} (each : ∀ k x, line ≤ k → k < line + count → P x → P (attempt k x).2) (start : P x) :
    P (sweep attempt count line x).2 := by
  induction count generalizing line x with
  | zero => exact start
  | succ count ih =>
    have first := each line x (Nat.le_refl line) (by omega) start
    unfold sweep
    split
    · next tried =>
      rw [tried] at first
      exact first
    · next tried =>
      rw [tried] at first
      exact ih (fun k x low high => each k x (by omega) (by omega)) first

/-- Saves one line. -/
def saveLine (chip : Nat) (s : Store) (line : Nat) (e : Eeprom) : Bool × Eeprom :=
  match s.slot line with
  | .error _ => (false, e)
  | .ok bytes =>
    match e.write chip (line * s.row) bytes with
    | (some _, e) => (false, e)
    | (none, e) => (true, e)

/-- Loads one line. -/
def loadLine (chip line : Nat) : Store × Eeprom → Bool × (Store × Eeprom)
  | (s, e) =>
    match e.read chip (line * s.row) s.row with
    | .error _ => (false, s, e)
    | .ok (bytes, e) =>
      match s.writeBytes line bytes with
      | (some _, s) => (false, s, e)
      | (none, s) => (true, s, e)

/-- Saves `count` lines from `line` on. -/
def save (chip : Nat) (s : Store) (count line : Nat) (e : Eeprom) : Nat × Eeprom :=
  sweep (saveLine chip s) count line e

/-- Loads `count` lines from `line` on. -/
def load (chip count line : Nat) (s : Store) (e : Eeprom) : Nat × (Store × Eeprom) :=
  sweep (loadLine chip) count line (s, e)

end Transfer

end LineScript
