import LineScript.Proofs.Store.Evolution
/-!
# Sound sessions

The bounds that the state of a run never leaves: an unskipped line is at
nesting zero, the link stack and the label table stay within their
capacities, and the scratch stack stays between line 1 and its floor. Each
part of a session is treated on its own, and `Session.Sound` collects them.
That there is a line for the scratch stack at all is one of the bounds a
configuration is checked for.
-/

namespace LineScript

/-! ## Configurations -/

namespace Config

variable {c : Config}

/-- The bounds a configuration has to keep. -/
structure Valid (c : Config) : Prop where
  lines_ge : 4 ≤ c.lines
  lines_le : c.lines ≤ 65535
  row_ge : 8 ≤ c.row
  row_le : c.row ≤ 256
  arrays_pos : 1 ≤ c.arrays
  arrays_le : c.arrays ≤ 16
  linkDepth_pos : 1 ≤ c.linkDepth
  labelLen_pos : 1 ≤ c.labelLen
  args_ge : 8 ≤ c.args

/-- **A configuration is passed when it keeps them.** -/
theorem badDimension?_eq_none_iff : c.badDimension? = none ↔ c.Valid := by
  unfold badDimension?
  constructor
  · intro h
    -- each test that a passed configuration meets falls through to the next
    iterate 5 (split at h; cases h)
    constructor <;> omega
  · rintro ⟨_, _, _, _, _, _, _, _, _⟩
    iterate 5 rw [if_neg (by omega)]

theorem Valid.of_validate {c' : Config} (h : c.validate = .ok c') : c.Valid := by
  unfold validate at h
  split at h
  · cases h
  · next none => exact badDimension?_eq_none_iff.1 none

end Config

/-! ## Skipping -/

namespace Flow

variable {f : Flow} {c : Command}

/-- Blocks are only counted while lines are skipped. -/
def Settled (f : Flow) : Prop := f.skip = none → f.nest = 0

theorem settled_running : Settled running := fun _ => rfl

theorem settled_start (reason : Skip) : Settled (start reason) := fun h => nomatch h

/-- Takes note of a skipped line, which may carry no command. -/
def past (f : Flow) : Option Command → Flow
  | some c => f.pass c
  | none => f

/-- Closing a block either goes on for the same reason or ends. -/
theorem close_skip_or_running (f : Flow) (ends : Bool) :
    (f.close ends).skip = f.skip ∨ f.close ends = running := by
  unfold close
  split
  · exact .inl rfl
  · split
    · exact .inr rfl
    · exact .inl rfl

/-- **A skipped line goes on for the same reason or ends the skipping.** -/
theorem pass_skip_or_running (f : Flow) (c : Command) :
    (f.pass c).skip = f.skip ∨ f.pass c = running := by
  unfold pass
  split
  · exact .inl rfl
  · split
    · split
      · exact .inr rfl
      · exact .inl rfl
    · exact close_skip_or_running f _
    · exact close_skip_or_running f _
    · exact close_skip_or_running f _
    · exact .inl rfl

theorem settled_pass (h : f.isSkipping = true) : Settled (f.pass c) := by
  rcases pass_skip_or_running f c with same | ended
  · intro none
    rw [same] at none
    simp [isSkipping, none] at h
  · rw [ended]
    exact settled_running

end Flow

/-! ## The link stack -/

namespace LinkStack

variable {s : LinkStack}

@[simp] theorem capacity_push (s : LinkStack) (line : Nat) :
    (s.push line).capacity = s.capacity := by
  unfold push
  split
  · split <;> rfl
  · rfl

@[simp] theorem capacity_pop (s : LinkStack) : s.pop.2.capacity = s.capacity := by
  unfold pop
  split <;> rfl

/-- A push leaves a stack within its capacity. -/
theorem size_push_le (line : Nat) (h : s.size ≤ s.capacity) :
    (s.push line).size ≤ s.capacity := by
  unfold push
  split
  · next full =>
    split
    · exact h
    · next older entries =>
      simp only [size, entries, List.length_cons] at h ⊢
      exact h
  · next room =>
    have below : ¬ s.capacity ≤ s.entries.length := fun full => room (decide_eq_true full)
    simp only [size, List.length_cons]
    omega

theorem size_pop_le (s : LinkStack) : s.pop.2.size ≤ s.size := by
  unfold pop
  split
  · exact Nat.le_refl _
  · next older entries =>
    simp only [size, entries, List.length_cons]
    omega

/-- A push on a stack that is not full. -/
theorem entries_push {s : LinkStack} (h : s.entries.length < s.capacity) (line : Nat) :
    (s.push line).entries = line :: s.entries := by
  have room : ¬ s.isFull = true := by
    rw [isFull, decide_eq_true_eq, size]
    omega
  rw [push, if_neg room]

theorem pop_of_entries {s : LinkStack} {line : Nat} {older : List Nat}
    (h : s.entries = line :: older) : s.pop = (some line, { s with entries := older }) := by
  unfold pop
  rw [h]

theorem entries_pop (s : LinkStack) : s.pop.2.entries = s.entries.tail := by
  unfold pop
  split
  · next none => rw [none]; rfl
  · next some => rw [some]; rfl

end LinkStack

/-! ## The label table -/

namespace LabelTable

/-- A scan finds no more labels than there is room for. -/
theorem length_scan_le (nameLen count room index : Nat) (s : Store) :
    (scan nameLen count room index s).1.length ≤ room := by
  induction count generalizing room index s with
  | zero => exact Nat.zero_le _
  | succ count ih =>
    cases room with
    | zero => exact Nat.zero_le _
    | succ room =>
      unfold scan
      dsimp only
      split
      · have rest := ih room (index + 1) (s.terminateLabel index)
        simp only [List.length_cons]
        omega
      · exact ih (room + 1) (index + 1) (s.terminateLabel index)

theorem size_rebuild_le (t : LabelTable) (s : Store) (start : Nat) :
    (t.rebuild s start).1.size ≤ t.capacity := length_scan_le _ _ _ _ _

theorem evolves_rebuild (t : LabelTable) (s : Store) (start : Nat) :
    s.Evolves (t.rebuild s start).2 := Store.evolves_scan _ _ _ _ _

end LabelTable

/-! ## Sessions -/

namespace Session

variable {c : Config} {s : Session}

/-- The bounds a session stays within, under a configuration. -/
structure Sound (c : Config) (s : Session) : Prop where
  settled : s.flow.Settled
  linkCapacity : s.link.capacity = c.linkDepth
  linkSize : s.link.size ≤ c.linkDepth
  labelCapacity : s.labels.capacity = c.labels
  labelSize : s.labels.size ≤ c.labels
  labelLen : s.labels.nameLen = c.labelLen
  floor : s.floor = c.scratchFloor
  scratch_pos : 1 ≤ s.scratch
  scratch_le : s.scratch ≤ c.scratchFloor

/-- There is room for the scratch stack in every configuration that passes. -/
theorem sound_new (h : 1 ≤ c.scratchFloor) : Sound c (new c) where
  settled := Flow.settled_running
  linkCapacity := rfl
  linkSize := Nat.zero_le _
  labelCapacity := rfl
  labelSize := Nat.zero_le _
  labelLen := rfl
  floor := rfl
  scratch_pos := h
  scratch_le := Nat.le_refl _

namespace Sound

/-- Going back to the state before any run. -/
theorem reset (h : Sound c s) (heap : Heap) : Sound c (s.reset heap).1 where
  settled := Flow.settled_running
  linkCapacity := h.linkCapacity
  linkSize := Nat.zero_le _
  labelCapacity := h.labelCapacity
  labelSize := Nat.zero_le _
  labelLen := h.labelLen
  floor := h.floor
  scratch_pos := by
    have := h.scratch_pos
    have := h.scratch_le
    have := h.floor
    change 1 ≤ s.floor
    omega
  scratch_le := Nat.le_of_eq h.floor

theorem withFlow (h : Sound c s) {flow : Flow} (settled : flow.Settled) :
    Sound c { s with flow } :=
  { h with settled }

theorem withArrays (h : Sound c s) (arrays : ArrayTable) : Sound c { s with arrays } :=
  { h with }

/-- Putting a line on the link stack. -/
theorem pushLink (h : Sound c s) (line : Nat) : Sound c { s with link := s.link.push line } :=
  { h with
    linkCapacity := (LinkStack.capacity_push s.link line).trans h.linkCapacity
    linkSize := by
      have bound : s.link.size ≤ s.link.capacity := h.linkCapacity ▸ h.linkSize
      exact h.linkCapacity ▸ LinkStack.size_push_le line bound }

/-- Taking a line off it. -/
theorem popLink (h : Sound c s) : Sound c { s with link := s.link.pop.2 } :=
  { h with
    linkCapacity := (LinkStack.capacity_pop s.link).trans h.linkCapacity
    linkSize := Nat.le_trans (LinkStack.size_pop_le s.link) h.linkSize }

/-- Scanning for labels. -/
theorem rebuild (h : Sound c s) (lines : Store) (start : Nat) :
    Sound c { s with labels := (s.labels.rebuild lines start).1 } :=
  { h with
    labelCapacity := h.labelCapacity
    labelLen := h.labelLen
    labelSize := h.labelCapacity ▸ LabelTable.size_rebuild_le s.labels lines start }

/-- Writing on top of the scratch stack: it stops growing at line 1. -/
theorem push (h : Sound c s) (lines : Store) (t : Text) : Sound c (s.push lines t).1 := by
  have pos := h.scratch_pos
  have le := h.scratch_le
  refine { h with scratch_pos := ?_, scratch_le := ?_ }
  · unfold Session.push
    dsimp only
    split <;> omega
  · unfold Session.push
    dsimp only
    split <;> omega

/-- Taking the top of the scratch stack: it stops shrinking at its floor. -/
theorem pop (h : Sound c s) (lines : Store) : Sound c (s.pop lines).2.1 := by
  have le := h.scratch_le
  have floor := h.floor
  unfold Session.pop
  split
  · exact h
  · split
    · exact h
    · refine { h with scratch_pos := ?_, scratch_le := ?_ } <;> dsimp only <;> omega

end Sound

/-- Taking a text off the scratch stack moves its top, and changes nothing else. -/
theorem pop_session (s : Session) (lines : Store) :
    (s.pop lines).2.1 = { s with scratch := (s.pop lines).2.1.scratch } := by
  unfold Session.pop
  split
  · rfl
  · split <;> rfl

/-- The scratch stack writes its lines as a host would. -/
theorem evolves_push (s : Session) (lines : Store) (t : Text) :
    lines.Evolves (s.push lines t).2 := Store.evolves_writeIfPresent _ _ _

theorem evolves_pop (s : Session) (lines : Store) : lines.Evolves (s.pop lines).2.2 := by
  unfold Session.pop
  split
  · exact .refl _
  · split
    · exact .refl _
    · exact Store.evolves_writeIfPresent _ _ _

end Session

end LineScript
