import LineScript.Board.Gpio
import LineScript.Proofs.Board.Sequence
import Mathlib.Logic.Function.Iterate
/-!
# Patterns on the pins

A pattern puts out one word per tick. The pins some ticks after its start
(`Gpio.serviced`) are told by one division, since a tick leads from each such
state to the next: the words follow one another round after round, and the
last one stays when the pattern is over. Clearing pins in the middle of a
pattern hides them in the word that is out and leaves the rest of the pattern
as it is. Both are said of any pins a host can come by
(`Gpio.pattern_playback`).
-/

namespace LineScript

namespace Gpio

variable {g : Gpio} {pattern : List UInt32} {rounds ticks : Nat} {mask : UInt32}

/-! ## The course of a pattern -/

/-- The word that is out some ticks after the start of a pattern. -/
def shown (old : UInt32) (pattern : List UInt32) (rounds : Nat) : (ticks : Nat) → UInt32
  | 0 => old
  | ticks + 1 =>
    if Sequence.Lasts pattern rounds ticks then pattern[ticks % pattern.length]?.getD old
    else pattern[pattern.length - 1]?.getD old

/-- The pins some ticks after the start of a pattern. -/
def serviced (g : Gpio) (pattern : List UInt32) (rounds ticks : Nat) : Gpio :=
  { g with
    sequence := Sequence.after pattern rounds ticks
    output := shown g.output pattern rounds ticks }

/-- The word that is out when a pattern is over is its last. -/
theorem shown_of_not_lasts (some : pattern ≠ []) (ended : ¬ Sequence.Lasts pattern rounds ticks)
    (old : UInt32) :
    shown old pattern rounds ticks = pattern[pattern.length - 1]?.getD old := by
  have pos : 0 < pattern.length := List.length_pos_iff.2 some
  rw [Sequence.Lasts, not_or] at ended
  cases ticks with
  | zero => exact absurd (Nat.mul_pos pos (Nat.pos_of_ne_zero ended.1)) ended.2
  | succ ticks =>
    rw [shown]
    split
    · next last =>
      -- the tick that played it was the last of all
      obtain ⟨more, rfl⟩ := Nat.exists_eq_succ_of_ne_zero ended.1
      have place : ticks % pattern.length = pattern.length - 1 := by
        have whole : ticks = pattern.length * more + (pattern.length - 1) := by
          have within := last.resolve_left ended.1
          rw [Nat.mul_succ] at ended within
          omega
        rw [whole, Nat.mul_add_mod, Nat.mod_eq_of_lt (by omega)]
      rw [place]
    · rfl

/-- **A tick leads from one to the next.** -/
theorem service_serviced (some : pattern ≠ []) (g : Gpio) (rounds ticks : Nat) :
    (g.serviced pattern rounds ticks).service = g.serviced pattern rounds (ticks + 1) := by
  have tick : (g.serviced pattern rounds ticks).sequence.advance = _ :=
    Sequence.advance_after some rounds ticks
  have word : (if Sequence.Lasts pattern rounds ticks then pattern[ticks % pattern.length]?
        else none).getD (shown g.output pattern rounds ticks) =
      shown g.output pattern rounds (ticks + 1) := by
    rw [shown]
    split
    · rw [List.getElem?_eq_getElem (Nat.mod_lt _ (List.length_pos_iff.2 some))]
      rfl
    · next ended => exact shown_of_not_lasts some ended g.output
  have out : (g.serviced pattern rounds ticks).output = shown g.output pattern rounds ticks := rfl
  unfold service
  rw [tick]
  dsimp only
  rw [out, word]
  rfl

/-- **Some ticks after its start** a pattern stands where it should. -/
theorem iterate_service_set (some : pattern ≠ []) (g : Gpio) (rounds ticks : Nat) :
    service^[ticks] (g.set pattern rounds) = g.serviced pattern rounds ticks := by
  induction ticks with
  | zero =>
    rw [Function.iterate_zero_apply, set, Sequence.start_eq_after some]
    rfl
  | succ ticks ih => rw [Function.iterate_succ_apply', ih, service_serviced some]

/-- Pins without a pattern stay as they are. -/
theorem iterate_service_of_isDone (ended : g.sequence.isDone = true) (ticks : Nat) :
    service^[ticks] g = g := by
  have same : g.service = g := by
    rw [service, Sequence.advance_of_isDone ended]
    rfl
  exact Function.iterate_fixed same ticks

/-! ## Clearing -/

/-- A mask removes its bits and no others. -/
theorem testBit_output_clear (g : Gpio) (mask : UInt32) (stay : Bool) (i : Nat) :
    (g.clear mask stay).output.toNat.testBit i =
      (g.output.toNat.testBit i && !mask.toNat.testBit i) := by
  simp only [clear, UInt32.toNat, BitVec.testBit_toNat, UInt32.toBitVec_and, UInt32.toBitVec_not,
    BitVec.getLsbD_and, BitVec.getLsbD_not]
  rcases Nat.lt_or_ge i 32 with inside | past
  · rw [decide_eq_true inside, Bool.true_and]
  · rw [BitVec.getLsbD_of_ge _ _ past, Bool.false_and, Bool.false_and]

/-- **The next tick hides what was cleared**: where a word is due it takes the
place of the cleared one. -/
theorem service_clear (due : g.sequence.InRange) (plays : g.sequence.isDone = false)
    (mask : UInt32) : (g.clear mask true).service = g.service := by
  obtain ⟨frame, next⟩ := due.advance_fst plays
  have same : (g.clear mask true).sequence = g.sequence := rfl
  unfold service
  rw [same]
  dsimp only
  rw [next]
  rfl

/-- So clearing shows after a tick only if no pattern plays. -/
theorem iterate_service_clear (due : g.sequence.InRange) (mask : UInt32) (ticks : Nat) :
    service^[ticks + 1] (g.clear mask true) =
      if g.sequence.isDone then g.clear mask true else service^[ticks + 1] g := by
  split
  · next ended => exact iterate_service_of_isDone (g := g.clear mask true) ended (ticks + 1)
  · next plays =>
    rw [Bool.not_eq_true] at plays
    rw [Function.iterate_succ_apply, Function.iterate_succ_apply, service_clear due plays]

/-! ## What a host does -/

/-- What is done with the pins. -/
inductive Use where
  | set (pattern : List UInt32) (rounds : Nat)
  | clear (mask : UInt32) (stay : Bool)
  | drive (pin : UInt32) (high : Bool)
  | service

/-- The pins after a use. -/
def use (g : Gpio) : Use → Gpio
  | .set pattern rounds => g.set pattern rounds
  | .clear mask stay => g.clear mask stay
  | .drive pin high => g.drive pin high
  | .service => g.service

/-- The pins after several uses. -/
def uses (g : Gpio) (us : List Use) : Gpio := us.foldl use g

theorem inRange_use (h : g.sequence.InRange) (u : Use) : (g.use u).sequence.InRange := by
  cases u with
  | set pattern rounds => exact Sequence.inRange_start pattern rounds
  | clear mask stay =>
    cases stay with
    | true => exact h
    | false => exact nofun
  | drive => exact h
  | service => exact h.advance

/-- **A pattern that is playing has a word due**, whatever was done before. -/
theorem inRange_uses (us : List Use) : (uses {} us).sequence.InRange := by
  have kept : ∀ g : Gpio, g.sequence.InRange → (g.uses us).sequence.InRange := by
    induction us with
    | nil => exact fun _ h => h
    | cons u us ih => exact fun g h => ih (g.use u) (inRange_use h u)
  exact kept {} nofun

/-! ## Playback -/

/-- A word that is due is the one its tick says. -/
theorem some_shown_succ (some : pattern ≠ []) (old : UInt32) (rounds ticks : Nat) :
    Option.some (shown old pattern rounds (ticks + 1)) =
      if Sequence.Lasts pattern rounds ticks then pattern[ticks % pattern.length]?
      else pattern[pattern.length - 1]? := by
  have pos : 0 < pattern.length := List.length_pos_iff.2 some
  rw [shown]
  split
  · rw [List.getElem?_eq_getElem (Nat.mod_lt _ pos)]
    rfl
  · rw [List.getElem?_eq_getElem (Nat.sub_one_lt_of_lt pos)]
    rfl

/-- What a host sees of patterns, whatever it did before. The words of a
pattern are put out one per tick, round after round, and the last one stays
when the rounds are over; until then the pattern counts as playing. A pattern
without words ends what is playing and changes no pin. Clearing pins that are
to stay in the pattern removes the bits of the mask and moves no word of it:
the next tick puts out the word that was due. -/
theorem pattern_playback (us : List Use) :
    let g := uses {} us
    (∀ pattern rounds, pattern ≠ [] → ∀ ticks,
      (1 ≤ ticks → some (service^[ticks] (g.set pattern rounds)).output =
        if rounds = 0 ∨ ticks ≤ pattern.length * rounds then
          pattern[(ticks - 1) % pattern.length]?
        else pattern[pattern.length - 1]?) ∧
      ((service^[ticks] (g.set pattern rounds)).sequence.isDone = false ↔
        rounds = 0 ∨ ticks < pattern.length * rounds)) ∧
    (∀ rounds ticks, (service^[ticks] (g.set [] rounds)).sequence.isDone = true ∧
      (service^[ticks] (g.set [] rounds)).output = g.output) ∧
    ∀ mask,
      (∀ i, (g.clear mask true).output.toNat.testBit i =
        (g.output.toNat.testBit i && !mask.toNat.testBit i)) ∧
      (∀ ticks, (service^[ticks] (g.clear mask true)).sequence = (service^[ticks] g).sequence) ∧
      ∀ ticks, 1 ≤ ticks → (service^[ticks] (g.clear mask true)).output =
        if g.sequence.isDone then (g.clear mask true).output else (service^[ticks] g).output := by
  intro g
  refine ⟨?_, ?_, fun mask => ⟨fun i => testBit_output_clear g mask true i, ?_, ?_⟩⟩
  · intro pattern rounds some ticks
    rw [iterate_service_set some]
    refine ⟨?_, Sequence.isDone_after some rounds ticks⟩
    intro later
    obtain ⟨ticks, rfl⟩ := Nat.exists_eq_add_of_le' later
    exact some_shown_succ some g.output rounds ticks
  · intro rounds ticks
    rw [iterate_service_of_isDone (g := g.set [] rounds) rfl]
    exact ⟨rfl, rfl⟩
  · intro ticks
    cases ticks with
    | zero => rfl
    | succ ticks =>
      rw [iterate_service_clear (inRange_uses us)]
      split
      · next ended =>
        rw [iterate_service_of_isDone ended]
        rfl
      · rfl
  · intro ticks later
    obtain ⟨ticks, rfl⟩ := Nat.exists_eq_add_of_le' later
    rw [iterate_service_clear (inRange_uses us)]
    split <;> rfl

/-- A pattern of three words is played twice over another that has begun, and
is cleared of a pin in the middle. -/
theorem pattern_playback_twice :
    let g := uses {} [.set [9, 9] 0, .service]
    let begun := uses {} [.set [9, 9] 0, .service, .set [5, 6, 7] 2, .service, .service]
    some (service^[6] (g.set [5, 6, 7] 2)).output = some 7 ∧
    some (service^[9] (g.set [5, 6, 7] 2)).output = some 7 ∧
    (service^[5] (g.set [5, 6, 7] 2)).sequence.isDone = false ∧
    (service^[1] (begun.clear 2 true)).output = (service^[1] begun).output ∧
    (begun.clear 2 true).output = 4 := by
  have played := (pattern_playback [.set [9, 9] 0, .service]).1 [5, 6, 7] 2 (by decide)
  have cleared := (pattern_playback [.set [9, 9] 0, .service, .set [5, 6, 7] 2, .service,
    .service]).2.2 2
  exact ⟨(played 6).1 (by decide), (played 9).1 (by decide), (played 5).2.2 (by decide),
    cleared.2.2 1 (by decide), by decide⟩

end Gpio

end LineScript
