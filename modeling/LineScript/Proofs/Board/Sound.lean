import LineScript.Board.Sound
import LineScript.Proofs.Board.Sequence
import Mathlib.Logic.Function.Iterate
/-!
# Music that interrupts

A tick plays a note of the interrupting music while there is one, and the
music underneath waits (`Sound.iterate_service_interrupt`). When the
interruption is over it is as if it had never been: what is left of it has no
notes, and what has none does not matter to any tick
(`Sound.iterate_service_of_isDone`). So the music goes on where it stood, with
as many rounds to play, even if one interruption took the place of another
(`Sound.interrupt_transparent`).
-/

namespace LineScript

namespace Sound

variable {s : Sound} {i : Sequence} {notes : List UInt32} {rounds ticks : Nat}

/-- The sound with nothing that interrupts the music. -/
def undisturbed (s : Sound) : Sound := { s with interrupting := {} }

/-! ## While music interrupts -/

/-- The note that sounds some ticks after an interruption began. -/
def interruptNote (old : UInt32) (notes : List UInt32) : (ticks : Nat) → UInt32
  | 0 => old
  | ticks + 1 => notes[ticks % notes.length]?.getD old

/-- **The music waits** for as long as the interruption lasts. -/
theorem iterate_service_interrupt (some : notes ≠ []) (s : Sound)
    (within : rounds = 0 ∨ ticks ≤ notes.length * rounds) :
    service^[ticks] (s.interrupt notes rounds) =
      { s with
        interrupting := Sequence.after notes rounds ticks
        note := interruptNote s.note notes ticks } := by
  induction ticks with
  | zero =>
    rw [Function.iterate_zero_apply, interrupt, Sequence.start_eq_after some]
    rfl
  | succ ticks ih =>
    have lasts : Sequence.Lasts notes rounds ticks := within
    have there : notes[ticks % notes.length]? = Option.some _ :=
      List.getElem?_eq_getElem (Nat.mod_lt _ (List.length_pos_iff.2 some))
    rw [Function.iterate_succ_apply', ih (within.imp_right Nat.le_of_succ_le), service]
    dsimp only
    rw [Sequence.advance_after some, if_pos lasts, interruptNote, there]
    rfl

/-- Its notes follow one another. -/
theorem some_interruptNote_succ (some : notes ≠ []) (old : UInt32) (ticks : Nat) :
    Option.some (interruptNote old notes (ticks + 1)) = notes[ticks % notes.length]? := by
  rw [interruptNote, List.getElem?_eq_getElem (Nat.mod_lt _ (List.length_pos_iff.2 some))]
  rfl

/-! ## When it is over -/

/-- A tick that no music interrupts plays a note of the music, or silence. -/
theorem service_of_isDone (done : s.interrupting.isDone = true) :
    s.service = { s with music := s.music.advance.2, note := s.music.advance.1.getD 0 } := by
  rw [service, Sequence.advance_of_isDone done]

/-- **What is over does not matter**: ticks play the music, and leave it as it is. -/
theorem iterate_service_of_isDone (done : i.isDone = true) (s : Sound) (ticks : Nat) :
    service^[ticks] { s with interrupting := i } =
      { service^[ticks] s.undisturbed with interrupting := i } := by
  induction ticks generalizing s with
  | zero => rfl
  | succ ticks ih =>
    have here : Sound.service { s with interrupting := i } =
        { s.undisturbed.service with interrupting := i } := by
      rw [service_of_isDone done, service_of_isDone (s := s.undisturbed) rfl]
      rfl
    have still : s.undisturbed.service.undisturbed = s.undisturbed.service := by
      rw [service_of_isDone (s := s.undisturbed) rfl, undisturbed]
      rfl
    rw [Function.iterate_succ_apply, here, ih, still, Function.iterate_succ_apply]

/-- The note that sounds does not matter to the next one, nor to the music. -/
theorem iterate_service_withNote (s : Sound) (note : UInt32) (ticks : Nat) :
    (service^[ticks] { s with note }).music = (service^[ticks] s).music ∧
      service^[ticks + 1] { s with note } = service^[ticks + 1] s := by
  have next : Sound.service { s with note } = s.service := rfl
  have later (ticks : Nat) : service^[ticks + 1] { s with note } = service^[ticks + 1] s := by
    rw [Function.iterate_succ_apply, Function.iterate_succ_apply, next]
  refine ⟨?_, later ticks⟩
  cases ticks with
  | zero => rfl
  | succ ticks => rw [later]

/-- **After the interruption** the music goes on where it stood. -/
theorem iterate_service_interrupt_add (some : notes ≠ []) (more : 1 ≤ rounds) (s : Sound)
    (ticks : Nat) :
    (service^[notes.length * rounds + ticks] (s.interrupt notes rounds)).music =
        (service^[ticks] s.undisturbed).music ∧
      (service^[notes.length * rounds + (ticks + 1)] (s.interrupt notes rounds)).note =
        (service^[ticks + 1] s.undisturbed).note := by
  have done : (Sequence.after notes rounds (notes.length * rounds)).isDone = true := by
    have ended : ¬ Sequence.Lasts notes rounds (notes.length * rounds) := by
      unfold Sequence.Lasts
      omega
    rwa [← Sequence.isDone_after some, Bool.not_eq_false] at ended
  -- the last note is all that the interruption leaves behind
  let left : Sound := { s with note := interruptNote s.note notes (notes.length * rounds) }
  have played (ticks : Nat) :
      service^[notes.length * rounds + ticks] (s.interrupt notes rounds) =
        { service^[ticks] left.undisturbed with
          interrupting := Sequence.after notes rounds (notes.length * rounds) } := by
    rw [Nat.add_comm, Function.iterate_add_apply,
      iterate_service_interrupt some s (.inr (Nat.le_refl _))]
    exact iterate_service_of_isDone done left ticks
  obtain ⟨music, later⟩ := iterate_service_withNote s.undisturbed left.note ticks
  have note := congrArg Sound.note later
  rw [played, played]
  exact ⟨music, note⟩

/-! ## Interruptions of a host -/

/-- What interrupts the music is played to its end, and then the music goes on
as if nothing had happened: in between it neither moves nor loses a round, and
afterwards each tick plays what it would have played undisturbed. That is so
of any sound, and if an earlier interruption was not over yet, no more is
heard of it. -/
theorem interrupt_transparent (some : notes ≠ []) (more : 1 ≤ rounds) (s : Sound) :
    (∀ ticks < notes.length * rounds,
      Option.some (service^[ticks + 1] (s.interrupt notes rounds)).note =
        notes[ticks % notes.length]?) ∧
    (∀ ticks ≤ notes.length * rounds,
      (service^[ticks] (s.interrupt notes rounds)).music = s.music) ∧
    (∀ ticks,
      (service^[notes.length * rounds + ticks] (s.interrupt notes rounds)).music =
        (service^[ticks] s.undisturbed).music ∧
      (service^[notes.length * rounds + (ticks + 1)] (s.interrupt notes rounds)).note =
        (service^[ticks + 1] s.undisturbed).note) ∧
    ∀ earlier again begun, earlier ≠ [] → Sequence.Lasts earlier again begun →
      ∀ ticks, service^[ticks + 1] ((service^[begun] (s.interrupt earlier again)).interrupt
        notes rounds) = service^[ticks + 1] (s.interrupt notes rounds) := by
  refine ⟨?_, ?_, iterate_service_interrupt_add some more s, ?_⟩
  · intro ticks within
    rw [iterate_service_interrupt some s (.inr within)]
    exact some_interruptNote_succ some s.note ticks
  · intro ticks within
    rw [iterate_service_interrupt some s (.inr within)]
  · intro earlier again begun someEarlier unfinished ticks
    rw [iterate_service_interrupt someEarlier s (unfinished.imp_right Nat.le_of_lt)]
    exact (iterate_service_withNote (s.interrupt notes rounds) _ ticks).2

/-- Music that has begun is interrupted by an endless note, and that one by two
notes twice over: these are heard, and then the music from its second note. -/
theorem interrupt_transparent_replaced :
    let s := (set {} [1, 2, 3] 2).service
    let broken := service^[1] (s.interrupt [9] 0)
    service^[5] (broken.interrupt [7, 8] 2) = service^[5] (s.interrupt [7, 8] 2) ∧
    some (service^[4] (s.interrupt [7, 8] 2)).note = some 8 ∧
    (service^[4] (s.interrupt [7, 8] 2)).music = s.music ∧
    (service^[5] (s.interrupt [7, 8] 2)).note = 2 := by
  intro s broken
  have some : [7, 8] ≠ ([] : List UInt32) := by decide
  have more : 1 ≤ 2 := by decide
  obtain ⟨notes, waits, goesOn, replaced⟩ := interrupt_transparent some more s
  have next : (service^[1] s.undisturbed).note = 2 := by decide
  exact ⟨replaced [9] 0 1 (by decide) (by decide) 4, notes 3 (by decide), waits 4 (by decide),
    (goesOn 0).2.trans next⟩

end Sound

end LineScript
