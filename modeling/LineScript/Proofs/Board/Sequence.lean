import LineScript.Board.Sequence
/-!
# The course of a sequence

A sequence that is played `rounds` times over lasts for that many times its
frames, and without end if `rounds` is 0 (`Sequence.Lasts`). Where it stands
after some ticks takes one division by the number of frames
(`Sequence.after`): the quotient is the number of rounds that are over, and
the remainder is the frame to be played next. One tick leads from each of
these to the next (`Sequence.advance_after`).
-/

namespace LineScript

namespace Sequence

variable {s : Sequence} {frames : List UInt32} {rounds ticks : Nat}

/-! ## A sequence from its start -/

/-- Whether a sequence has a frame left some ticks after its start. -/
def Lasts (frames : List UInt32) (rounds ticks : Nat) : Prop :=
  rounds = 0 ∨ ticks < frames.length * rounds

instance (frames : List UInt32) (rounds ticks : Nat) : Decidable (Lasts frames rounds ticks) :=
  inferInstanceAs (Decidable (_ ∨ _))

/-- A sequence as it stands some ticks after its start. -/
def after (frames : List UInt32) (rounds ticks : Nat) : Sequence :=
  if Lasts frames rounds ticks then
    { frames, rounds := rounds - ticks / frames.length, position := ticks % frames.length }
  else { frames := [], rounds := 1 }

theorem start_eq_after (some : frames ≠ []) (rounds : Nat) :
    start frames rounds = after frames rounds 0 := by
  have pos : 0 < frames.length := List.length_pos_iff.2 some
  have lasts : Lasts frames rounds 0 := by
    rcases Nat.eq_zero_or_pos rounds with endless | more
    · exact .inl endless
    · exact .inr (Nat.mul_pos pos more)
  rw [after, if_pos lasts, Nat.zero_div, Nat.zero_mod, Nat.sub_zero]
  rfl

/-- While it lasts it is not empty, and when it is over it is. -/
theorem isDone_after (some : frames ≠ []) (rounds ticks : Nat) :
    (after frames rounds ticks).isDone = false ↔ Lasts frames rounds ticks := by
  unfold after
  split
  · next lasts => simpa [isDone, lasts] using some
  · next ended => simpa [isDone] using ended

/-- The last frame of a round ends it, and the pattern with it if it was the last round. -/
theorem endRound_after (some : frames ≠ []) (lasts : Lasts frames rounds ticks)
    (last : ticks % frames.length + 1 = frames.length) :
    (after frames rounds ticks).endRound = after frames rounds (ticks + 1) := by
  have pos : 0 < frames.length := List.length_pos_iff.2 some
  have whole : frames.length * (ticks / frames.length + 1) = ticks + 1 := by
    have split := Nat.div_add_mod ticks frames.length
    rw [Nat.mul_succ]
    omega
  have quotient : (ticks + 1) / frames.length = ticks / frames.length + 1 := by
    rw [← whole, Nat.mul_div_cancel_left _ pos]
  have place : (ticks + 1) % frames.length = 0 := by
    rw [← whole, Nat.mul_mod_right]
  have begun : rounds = 0 ∨ ticks / frames.length < rounds :=
    lasts.imp_right Nat.div_lt_of_lt_mul
  have lasts_iff : Lasts frames rounds (ticks + 1) ↔
      rounds = 0 ∨ ticks / frames.length + 1 < rounds := by
    rw [Lasts, ← whole, Nat.mul_lt_mul_left pos]
  simp only [after, if_pos lasts, lasts_iff, quotient, place]
  generalize ticks / frames.length = past at begun
  -- the rounds that are left tell whether one more begins
  unfold endRound
  dsimp only
  split
  · next none =>
    have endless : rounds = 0 := by omega
    simp [endless]
  · next one =>
    have done : ¬ (rounds = 0 ∨ past + 1 < rounds) := by omega
    rw [if_neg done, one]
  · next n more =>
    have another : rounds = 0 ∨ past + 1 < rounds := by omega
    have left : rounds - (past + 1) = n + 1 := by omega
    rw [if_pos another, left]

/-- Any other frame is followed by the next one. -/
theorem after_succ (lasts : Lasts frames rounds ticks)
    (inner : ticks % frames.length + 1 < frames.length) :
    after frames rounds (ticks + 1) =
      { frames
        rounds := (after frames rounds ticks).rounds
        position := ticks % frames.length + 1 } := by
  have split := Nat.div_add_mod ticks frames.length
  have quotient : (ticks + 1) / frames.length = ticks / frames.length := by
    rw [Nat.div_eq_iff (by omega)]
    rw [Nat.mul_comm] at split
    omega
  have place : (ticks + 1) % frames.length = ticks % frames.length + 1 := by
    have split' := Nat.div_add_mod (ticks + 1) frames.length
    rw [quotient] at split'
    omega
  have still : Lasts frames rounds (ticks + 1) := by
    rcases lasts with endless | within
    · exact .inl endless
    · refine .inr (Nat.lt_of_le_of_ne within ?_)
      intro same
      rw [same, Nat.mul_mod_right] at place
      omega
  simp only [after, if_pos lasts, if_pos still, quotient, place]

/-- **One tick plays the frame that is due**, and none when all is over. -/
theorem advance_after (some : frames ≠ []) (rounds ticks : Nat) :
    (after frames rounds ticks).advance =
      (if Lasts frames rounds ticks then frames[ticks % frames.length]? else none,
        after frames rounds (ticks + 1)) := by
  by_cases lasts : Lasts frames rounds ticks
  · have less : ticks % frames.length < frames.length :=
      Nat.mod_lt _ (List.length_pos_iff.2 some)
    have there := List.getElem?_eq_getElem less
    have stands : (after frames rounds ticks).frames = frames ∧
        (after frames rounds ticks).position = ticks % frames.length := by
      rw [after, if_pos lasts]
      exact ⟨rfl, rfl⟩
    rw [if_pos lasts, there, advance, stands.1, stands.2, there]
    dsimp only
    split
    · next last => rw [endRound_after some lasts last]
    · next inner => rw [after_succ lasts (by omega)]
  · have ended : ¬ Lasts frames rounds (ticks + 1) := by
      unfold Lasts at lasts ⊢
      omega
    simp only [after, if_neg lasts, if_neg ended]
    rfl

/-! ## Any sequence -/

/-- The next frame is one of the frames, if there are any. -/
def InRange (s : Sequence) : Prop := s.isDone = false → s.position < s.frames.length

theorem inRange_start (frames : List UInt32) (rounds : Nat) : (start frames rounds).InRange := by
  intro some
  simpa [isDone, List.isEmpty_eq_false_iff, start, List.length_pos_iff] using some

/-- A sequence that is over stays as it is. -/
theorem advance_of_isDone (ended : s.isDone = true) : s.advance = (none, s) := by
  have empty : s.frames = [] := List.isEmpty_iff.1 ended
  simp [advance, empty]

/-- Any other plays a frame. -/
theorem InRange.advance_fst (h : s.InRange) (plays : s.isDone = false) :
    ∃ frame, s.advance.1 = some frame := by
  have inside := h plays
  have there := List.getElem?_eq_getElem inside
  refine ⟨s.frames[s.position], ?_⟩
  unfold advance
  rw [there]
  dsimp only
  split <;> rfl

/-- **Ticks keep the position in range.** -/
theorem InRange.advance (h : s.InRange) : s.advance.2.InRange := by
  cases ended : s.isDone with
  | true => rwa [advance_of_isDone ended]
  | false =>
    have less := h ended
    unfold Sequence.advance
    rw [List.getElem?_eq_getElem less]
    dsimp only
    split
    · unfold endRound
      split
      · exact fun _ => Nat.zero_lt_of_lt less
      · exact nofun
      · exact fun _ => Nat.zero_lt_of_lt less
    · next inner => exact fun _ => Nat.lt_of_le_of_ne less inner

end Sequence

end LineScript
