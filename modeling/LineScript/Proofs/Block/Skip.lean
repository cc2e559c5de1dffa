import LineScript.Proofs.Block.Tree
import LineScript.Proofs.Session
/-!
# Skipping over nested blocks

Skipping is done with one reason and one counter of open blocks.
`Flow.Resumes` says on which line a skipping ends. Inside a tree every block
is passed over as a whole, whatever the reason (`resumes_block`).
-/

namespace LineScript

/-! ## Where skipping ends -/

namespace Flow

variable {command : Nat → Option Command} {f : Flow} {line last : Nat}

/-- Lines are skipped from `line` up to, and without, `last`. -/
inductive Resumes (command : Nat → Option Command) : Flow → (line last : Nat) → Prop where
  | here {f : Flow} {line : Nat} : f.isSkipping = false → Resumes command f line line
  | past {f : Flow} {line last : Nat} : f.isSkipping = true →
      Resumes command (f.past (command line)) (line + 1) last → Resumes command f line last

/-- Unless lines are skipped, the run goes on at once. -/
theorem Resumes.eq_of_unskipped (h : Resumes command f line last) (runs : f.isSkipping = false) :
    line = last := by
  cases h with
  | here => rfl
  | past skips => exact absurd (runs.symm.trans skips) (by decide)

/-- If they are, the current one is passed over. -/
theorem Resumes.past_of_skipping (h : Resumes command f line last) (skips : f.isSkipping = true) :
    Resumes command (f.past (command line)) (line + 1) last := by
  cases h with
  | here runs => exact absurd (runs.symm.trans skips) (by decide)
  | past _ rest => exact rest

/-- One block deeper. -/
def deeper (f : Flow) : Flow := { f with nest := f.nest + 1 }

theorem pass_of_opensBlock {c : Command} (h : c.opensBlock = true) : f.pass c = f.deeper := by
  unfold pass
  exact if_pos h

/-- What is passed over inside a block ends with it. -/
theorem pass_deeper_endBranch (f : Flow) : f.deeper.pass .endBranch = f := rfl

theorem pass_deeper_otherwise (f : Flow) : f.deeper.pass .otherwise = f.deeper := by
  have inside : ¬ (f.nest + 1 = 0 ∧ f.skip = some .branch) := fun h => Nat.succ_ne_zero _ h.1
  change (if f.nest + 1 = 0 ∧ f.skip = some .branch then running else f.deeper) = f.deeper
  exact if_neg inside

theorem pass_deeper_terminator (f : Flow) (kind : LoopKind) :
    f.deeper.pass kind.terminator = f := by
  cases kind <;> rfl

/-- A plain line is passed over without notice. -/
theorem pass_of_isPlain {c : Command} (h : c.isPlain = true) : f.pass c = f := by
  refine f.pass_of_not_skipAware ?_
  cases c <;> simp_all [Command.isPlain, Command.skipAware]

end Flow

namespace Block

open LineScript.Flow (Resumes)

variable {command : Nat → Option Command} {b : Block} {f : Flow} {start last : Nat} {inLoop : Bool}

theorem opensBlock_head (kind : LoopKind) : kind.head.opensBlock = true := by
  cases kind <;> rfl

/-- **A block is passed over as a whole.** Whatever the reason, skipping from
its first line is skipping from past its last. -/
theorem resumes_block {stop : Nat} (placed : b.Placed command start) (nested : b.Nested inLoop)
    (skips : f.isSkipping = true) (size : start + b.size = stop) (h : Resumes command f stop last) :
    Resumes command f start last := by
  induction b generalizing f start stop inLoop with
  | done =>
    obtain rfl : start = stop := size
    exact h
  | plain c rest ih =>
    obtain ⟨here, placed⟩ := placed
    obtain ⟨unnoticed, nested⟩ := nested
    -- the counter only watches the keywords of blocks
    have same : f.past (command start) = f := by
      rw [here]
      cases c with
      | none => rfl
      | some k => exact Flow.pass_of_isPlain (unnoticed k rfl)
    simp only [Block.size] at size
    refine .past skips ?_
    rw [same]
    exact ih placed nested skips (by omega) h
  | leave rest ih =>
    obtain ⟨here, placed⟩ := placed
    obtain ⟨-, nested⟩ := nested
    simp only [Block.size] at size
    refine .past skips ?_
    rw [here]
    exact ih placed nested skips (by omega) h
  | branch sides yes rest ihYes ihRest =>
    obtain ⟨first, placedYes, last, placedRest⟩ := placed
    obtain ⟨nestedYes, nestedRest⟩ := nested
    simp only [Block.size] at size
    refine .past skips ?_
    rw [first]
    refine ihYes (f := f.deeper) placedYes nestedYes skips
      (show start + 1 + yes.size = start + yes.size + 1 by omega) (.past skips ?_)
    rw [last, Flow.past, Flow.pass_deeper_endBranch]
    exact ihRest placedRest nestedRest skips (by omega) h
  | choice sides yes no rest ihYes ihNo ihRest =>
    obtain ⟨first, placedYes, middle, placedNo, last, placedRest⟩ := placed
    obtain ⟨nestedYes, nestedNo, nestedRest⟩ := nested
    simp only [Block.size] at size
    refine .past skips ?_
    rw [first]
    refine ihYes (f := f.deeper) placedYes nestedYes skips
      (show start + 1 + yes.size = start + yes.size + 1 by omega) (.past skips ?_)
    -- one block deeper, this `else` is not the one that ends the skipping
    rw [middle, Flow.past, Flow.pass_deeper_otherwise]
    refine ihNo placedNo nestedNo skips
      (show start + yes.size + 2 + no.size = start + yes.size + no.size + 2 by omega)
      (.past skips ?_)
    rw [last, Flow.past, Flow.pass_deeper_endBranch]
    exact ihRest placedRest nestedRest skips (by omega) h
  | loop kind body rest ihBody ihRest =>
    obtain ⟨first, placedBody, last, placedRest⟩ := placed
    obtain ⟨nestedBody, nestedRest⟩ := nested
    simp only [Block.size] at size
    refine .past skips ?_
    rw [first, Flow.past, Flow.pass_of_opensBlock (opensBlock_head kind)]
    refine ihBody placedBody nestedBody skips
      (show start + 1 + body.size = start + body.size + 1 by omega) (.past skips ?_)
    rw [last, Flow.past, Flow.pass_deeper_terminator]
    exact ihRest placedRest nestedRest skips (by omega) h

end Block

end LineScript
