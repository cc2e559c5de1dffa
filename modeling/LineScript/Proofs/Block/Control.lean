import LineScript.Proofs.Block.Skip
/-!
# The line that comes next

What a command does to the skipping and to the link stack decides which line
comes next. `control_next` says that this is the line where the structured
reading goes on, and that the stack then holds the loops that are open there,
for every line of a tree and either outcome on it.

A loop may be left from within branches: what is then passed over is the rest
of each of them, up to the end of the loop. `Block.Standing` carries this from
a tree to its parts.
-/

namespace LineScript

/-! ## What a line does -/

/-- What decides which line comes next. -/
structure Control where
  flow : Flow
  link : LinkStack

namespace Control

/-- What the command of a line does to it, given the outcome of a condition,
and the line that is jumped to. -/
def after (k : Control) (line : Nat) (taken : Bool) : Option Command → Control × Option Nat
  | some (.branch _) => (if taken then k else { k with flow := Flow.start .branch }, none)
  | some .otherwise => ({ k with flow := Flow.start .branch }, none)
  | some (.loop _) | some .count =>
    (if taken then { k with link := k.link.push line } else { k with flow := Flow.start .loop },
      none)
  | some .endLoop | some .next => ({ k with link := k.link.pop.2 }, k.link.pop.1)
  | some .leave => ({ flow := Flow.start .loop, link := k.link.pop.2 }, none)
  | _ => (k, none)

theorem after_of_isPlain (k : Control) (line : Nat) (taken : Bool) {c : Option Command}
    (h : ∀ d, c = some d → d.isPlain = true) : k.after line taken c = (k, none) := by
  cases c with
  | none => rfl
  | some d =>
    have plain := h d rfl
    cases d <;> first | rfl | cases plain

/-- The head of a loop is stacked if the loop is entered. -/
theorem after_head (k : Control) (line : Nat) (taken : Bool) (kind : LoopKind) :
    k.after line taken (some kind.head) =
      (if taken then { k with link := k.link.push line } else { k with flow := Flow.start .loop },
        none) := by
  cases kind <;> rfl

/-- The end of a loop goes back to the head that was stacked last. -/
theorem after_terminator (k : Control) (line : Nat) (taken : Bool) (kind : LoopKind) :
    k.after line taken (some kind.terminator) =
      ({ k with link := k.link.pop.2 }, k.link.pop.1) := by
  cases kind <;> rfl

end Control

namespace Block

open LineScript.Flow (Resumes)

variable {command : Nat → Option Command} {opens : Nat → List Nat} {capacity : Nat} {b : Block}
variable {start stop exit : Nat} {outer : List Nat} {inLoop : Bool}

/-! ## Open loops of the parts -/

theorem openLoops_branch (sides : Comparand) (yes rest : Block) (start line : Nat) :
    (branch sides yes rest).openLoops start line =
      yes.openLoops (start + 1) line ++ rest.openLoops (start + yes.size + 2) line := by
  simp only [openLoops, loops, List.filter_append, List.map_append]

theorem openLoops_choice (sides : Comparand) (yes no rest : Block) (start line : Nat) :
    (choice sides yes no rest).openLoops start line =
      yes.openLoops (start + 1) line ++ no.openLoops (start + yes.size + 2) line ++
        rest.openLoops (start + yes.size + no.size + 3) line := by
  simp only [openLoops, loops, List.filter_append, List.map_append]

/-- A loop is open behind its head, up to its last line. -/
theorem openLoops_loop_of_mem (kind : LoopKind) (body rest : Block) {start line : Nat}
    (behind : start < line) (last : line ≤ start + body.size + 1) :
    (loop kind body rest).openLoops start line = start :: body.openLoops (start + 1) line := by
  have none : rest.openLoops (start + body.size + 2) line = [] := openLoops_of_le (by omega)
  have kept : decide (start < line ∧ line ≤ start + body.size + 1) = true :=
    decide_eq_true ⟨behind, last⟩
  simp only [openLoops, loops, List.cons_append, List.filter_cons, kept, if_true,
    List.filter_append, List.map_cons, List.map_append] at none ⊢
  rw [none, List.append_nil]

/-- It is not open past its end. -/
theorem openLoops_loop_of_lt (kind : LoopKind) (body rest : Block) {start line : Nat}
    (past : start + body.size + 1 < line) :
    (loop kind body rest).openLoops start line = rest.openLoops (start + body.size + 2) line := by
  have none : body.openLoops (start + 1) line = [] := openLoops_of_ge (by omega)
  have dropped : decide (start < line ∧ line ≤ start + body.size + 1) = false :=
    decide_eq_false fun inside => by omega
  simp only [openLoops, loops, List.cons_append, List.filter_cons, dropped, Bool.false_eq_true,
    if_false, List.filter_append, List.map_append] at none ⊢
  rw [none, List.nil_append]

/-! ## Trees in a script -/

/-- A tree stands in a script, inside the loops with the heads `outer`,
innermost first. Leaving the innermost of them from behind the tree skips to
`exit`. -/
structure Standing (command : Nat → Option Command) (opens : Nat → List Nat) (capacity : Nat)
    (b : Block) (start stop exit : Nat) (outer : List Nat) (inLoop : Bool) : Prop where
  placed : b.Placed command start
  nested : b.Nested inLoop
  size : start + b.size = stop
  depth : b.depth + outer.length ≤ capacity
  inside : ∀ line, start ≤ line → line ≤ stop → opens line = (b.openLoops start line).reverse ++ outer
  exits : inLoop = true →
    Resumes command (Flow.start .loop) stop exit ∧ opens exit = outer.tail

namespace Standing

/-- At its ends only the loops around a tree are open. -/
theorem opens_start (h : Standing command opens capacity b start stop exit outer inLoop) :
    opens start = outer := by
  have size := h.size
  rw [h.inside start (Nat.le_refl _) (by omega), openLoops_of_le (Nat.le_refl _)]
  rfl

theorem opens_stop (h : Standing command opens capacity b start stop exit outer inLoop) :
    opens stop = outer := by
  have size := h.size
  rw [h.inside stop (by omega) (Nat.le_refl _), openLoops_of_ge (by omega)]
  rfl

/-- A part of a tree that no loop of its own surrounds stands as the tree does. -/
theorem part (h : Standing command opens capacity b start stop exit outer inLoop) {p : Block}
    {first last : Nat} (placed : p.Placed command first) (nested : p.Nested inLoop)
    (size : first + p.size = last) (depth : p.depth ≤ b.depth) (ge : start ≤ first)
    (le : last ≤ stop)
    (same : ∀ line, first ≤ line → line ≤ last → b.openLoops start line = p.openLoops first line)
    (leaves : inLoop = true → Resumes command (Flow.start .loop) last exit) :
    Standing command opens capacity p first last exit outer inLoop where
  placed := placed
  nested := nested
  size := size
  depth := Nat.le_trans (Nat.add_le_add_right depth _) h.depth
  inside line ge' le' := by
    rw [h.inside line (Nat.le_trans ge ge') (Nat.le_trans le' le), same line ge' le']
  exits loop := ⟨leaves loop, (h.exits loop).2⟩

/-- What stands behind a line that is no block. -/
theorem plain_rest {c : Option Command} {rest : Block}
    (h : Standing command opens capacity (plain c rest) start stop exit outer inLoop) :
    Standing command opens capacity rest (start + 1) stop exit outer inLoop := by
  have size := h.size
  simp only [Block.size] at size
  refine h.part h.placed.2 h.nested.2 (by omega) (Nat.le_refl _) (by omega) (Nat.le_refl _) ?_ ?_
  · intro line _ _
    rfl
  · intro loop
    exact (h.exits loop).1

theorem leave_rest {rest : Block}
    (h : Standing command opens capacity (leave rest) start stop exit outer inLoop) :
    Standing command opens capacity rest (start + 1) stop exit outer inLoop := by
  have size := h.size
  simp only [Block.size] at size
  refine h.part h.placed.2 h.nested.2 (by omega) (Nat.le_refl _) (by omega) (Nat.le_refl _) ?_ ?_
  · intro line _ _
    rfl
  · intro loop
    exact (h.exits loop).1

section Branch

variable {sides : Comparand} {yes no rest : Block}

theorem branch_rest
    (h : Standing command opens capacity (branch sides yes rest) start stop exit outer inLoop) :
    Standing command opens capacity rest (start + yes.size + 2) stop exit outer inLoop := by
  have size := h.size
  simp only [Block.size] at size
  refine h.part h.placed.2.2.2 h.nested.2 (by omega) (Nat.le_max_right _ _) (by omega)
    (Nat.le_refl _) ?_ ?_
  · intro line ge _
    rw [openLoops_branch, openLoops_of_ge (b := yes) (by omega), List.nil_append]
  · intro loop
    exact (h.exits loop).1

/-- Leaving a loop from within a branch passes over the rest of the branch. -/
theorem branch_yes
    (h : Standing command opens capacity (branch sides yes rest) start stop exit outer inLoop) :
    Standing command opens capacity yes (start + 1) (start + yes.size + 1) exit outer inLoop := by
  have size := h.size
  have behind := h.branch_rest
  simp only [Block.size] at size
  refine h.part h.placed.2.1 h.nested.1 (by omega) (Nat.le_max_left _ _) (by omega) (by omega) ?_ ?_
  · intro line _ le
    rw [openLoops_branch, openLoops_of_le (b := rest) (by omega), List.append_nil]
  · intro loop
    -- skipping for a loop passes over an `endif` that it did not see opened
    refine .past rfl ?_
    rw [h.placed.2.2.1]
    exact resumes_block behind.placed behind.nested rfl behind.size (h.exits loop).1

theorem choice_rest
    (h : Standing command opens capacity (choice sides yes no rest) start stop exit outer inLoop) :
    Standing command opens capacity rest (start + yes.size + no.size + 3) stop exit outer
      inLoop := by
  have size := h.size
  simp only [Block.size] at size
  refine h.part h.placed.2.2.2.2.2 h.nested.2.2 (by omega) (Nat.le_max_right _ _) (by omega)
    (Nat.le_refl _) ?_ ?_
  · intro line ge _
    rw [openLoops_choice, openLoops_of_ge (b := yes) (by omega),
      openLoops_of_ge (b := no) (by omega)]
    rfl
  · intro loop
    exact (h.exits loop).1

theorem choice_no
    (h : Standing command opens capacity (choice sides yes no rest) start stop exit outer inLoop) :
    Standing command opens capacity no (start + yes.size + 2) (start + yes.size + no.size + 2) exit
      outer inLoop := by
  have size := h.size
  have behind := h.choice_rest
  have depth : no.depth ≤ (choice sides yes no rest).depth :=
    Nat.le_trans (Nat.le_max_right _ _) (Nat.le_max_left _ _)
  simp only [Block.size] at size
  refine h.part h.placed.2.2.2.1 h.nested.2.1 (by omega) depth (by omega) (by omega) ?_ ?_
  · intro line ge le
    rw [openLoops_choice, openLoops_of_ge (b := yes) (by omega),
      openLoops_of_le (b := rest) (by omega), List.append_nil, List.nil_append]
  · intro loop
    refine .past rfl ?_
    rw [h.placed.2.2.2.2.1]
    exact resumes_block behind.placed behind.nested rfl behind.size (h.exits loop).1

theorem choice_yes
    (h : Standing command opens capacity (choice sides yes no rest) start stop exit outer inLoop) :
    Standing command opens capacity yes (start + 1) (start + yes.size + 1) exit outer inLoop := by
  have size := h.size
  have behind := h.choice_no
  have depth : yes.depth ≤ (choice sides yes no rest).depth :=
    Nat.le_trans (Nat.le_max_left _ _) (Nat.le_max_left _ _)
  simp only [Block.size] at size
  refine h.part h.placed.2.1 h.nested.1 (by omega) depth (by omega) (by omega) ?_ ?_
  · intro line _ le
    rw [openLoops_choice, openLoops_of_le (b := no) (by omega),
      openLoops_of_le (b := rest) (by omega), List.append_nil, List.append_nil]
  · intro loop
    refine .past rfl ?_
    rw [h.placed.2.2.1]
    exact resumes_block behind.placed behind.nested rfl behind.size (behind.exits loop).1

end Branch

section Loop

variable {kind : LoopKind} {body rest : Block}

theorem loop_rest
    (h : Standing command opens capacity (loop kind body rest) start stop exit outer inLoop) :
    Standing command opens capacity rest (start + body.size + 2) stop exit outer inLoop := by
  have size := h.size
  simp only [Block.size] at size
  refine h.part h.placed.2.2.2 h.nested.2 (by omega) (Nat.le_max_right _ _) (by omega)
    (Nat.le_refl _) ?_ ?_
  · intro line ge _
    exact openLoops_loop_of_lt kind body rest (by omega)
  · intro loop
    exact (h.exits loop).1

/-- The body has one more loop around it, and is left to past the end of that. -/
theorem loop_body
    (h : Standing command opens capacity (loop kind body rest) start stop exit outer inLoop) :
    Standing command opens capacity body (start + 1) (start + body.size + 1)
      (start + body.size + 2) (start :: outer) true where
  placed := h.placed.2.1
  nested := h.nested.1
  size := by omega
  depth := by
    have := h.depth
    simp only [Block.depth, List.length_cons] at this ⊢
    omega
  inside line ge le := by
    have size := h.size
    simp only [Block.size] at size
    rw [h.inside line (by omega) (by omega), openLoops_loop_of_mem kind body rest (by omega) le,
      List.reverse_cons, List.append_assoc]
    rfl
  exits _ := by
    refine ⟨.past rfl ?_, h.loop_rest.opens_start⟩
    have ends : (Flow.start .loop).past (some kind.terminator) = Flow.running := by
      cases kind <;> rfl
    rw [h.placed.2.2.1, ends]
    exact .here rfl

end Loop

end Standing

/-! ## The line that comes next -/

/-- A line that was left as `k` says, with a jump or none, leads to `target`:
perhaps over skipped lines, and with the loops stacked that are open there. -/
structure LeadsOn (command : Nat → Option Command) (opens : Nat → List Nat) (low line : Nat)
    (k : Control × Option Nat) (target : Nat) : Prop where
  low : low ≤ k.2.getD (line + 1)
  resumes : Resumes command k.1.flow (k.2.getD (line + 1)) target
  stack : k.1.link.entries = opens target

theorem LeadsOn.weaken {low low' line target : Nat} {k : Control × Option Nat}
    (h : LeadsOn command opens low line k target) (le : low' ≤ low) :
    LeadsOn command opens low' line k target :=
  { h with low := Nat.le_trans le h.low }

variable {k : Control} {line low target : Nat}

/-- Going on at the next line. -/
theorem leadsOn_next (unskipped : k.flow.isSkipping = false) (ge : low ≤ line)
    (stack : k.link.entries = opens (line + 1)) :
    LeadsOn command opens low line (k, none) (line + 1) where
  low := Nat.le_succ_of_le ge
  resumes := .here unskipped
  stack := stack

/-- **A line leads where the structured reading goes on.** -/
theorem control_next (h : Standing command opens capacity b start stop exit outer inLoop)
    (unskipped : k.flow.isSkipping = false) (room : k.link.capacity = capacity)
    (ge : start ≤ line) (lt : line < stop) (stack : k.link.entries = opens line) (taken : Bool) :
    LeadsOn command opens start line (k.after line taken (command line))
      (b.next start exit line taken) := by
  induction b generalizing start stop exit outer inLoop with
  | done =>
    have := h.size
    simp only [Block.size] at this
    omega
  | plain c rest ih =>
    have behind := h.plain_rest
    rw [next]
    by_cases first : line = start
    · subst first
      rw [if_pos rfl, h.placed.1, Control.after_of_isPlain k line taken h.nested.1]
      refine leadsOn_next unskipped (Nat.le_refl _) ?_
      rw [stack, h.opens_start, behind.opens_start]
    · rw [if_neg first]
      exact (ih behind (by omega) lt).weaken (by omega)
  | leave rest ih =>
    have behind := h.leave_rest
    rw [next]
    by_cases first : line = start
    · subst first
      -- the rest of the tree is passed over, and then what is left of the loop
      obtain ⟨leaves, opened⟩ := h.exits h.nested.1
      rw [if_pos rfl, h.placed.1]
      refine ⟨Nat.le_succ _, ?_, ?_⟩
      · exact resumes_block behind.placed behind.nested rfl behind.size leaves
      · change k.link.pop.2.entries = _
        rw [LinkStack.entries_pop, stack, h.opens_start, opened]
    · rw [if_neg first]
      exact (ih behind (by omega) lt).weaken (by omega)
  | branch sides yes rest ihYes ihRest =>
    have within := h.branch_yes
    have behind := h.branch_rest
    rw [next]
    by_cases first : line = start
    · subst first
      rw [if_pos rfl, h.placed.1]
      cases taken with
      | true =>
        refine leadsOn_next (k := k) unskipped (Nat.le_refl _) ?_
        rw [stack, h.opens_start, within.opens_start]
      | false =>
        -- over the branch as a whole, up to its own `endif`
        refine ⟨Nat.le_succ _, ?_, ?_⟩
        · refine resumes_block within.placed within.nested rfl within.size (.past rfl ?_)
          rw [h.placed.2.2.1]
          exact .here rfl
        · change k.link.entries = opens (line + yes.size + 2)
          rw [stack, h.opens_start, behind.opens_start]
    · rw [if_neg first]
      by_cases inner : line < start + yes.size + 1
      · rw [if_pos inner]
        exact (ihYes within (by omega) inner).weaken (by omega)
      · rw [if_neg inner]
        by_cases last : line = start + yes.size + 1
        · rw [if_pos last]
          have same : command line = some .endBranch := last ▸ h.placed.2.2.1
          rw [same]
          refine leadsOn_next unskipped ge ?_
          rw [stack, last, within.opens_stop, ← behind.opens_start]
        · rw [if_neg last]
          exact (ihRest behind (by omega) lt).weaken (by omega)
  | choice sides yes no rest ihYes ihNo ihRest =>
    have within := h.choice_yes
    have other := h.choice_no
    have behind := h.choice_rest
    rw [next]
    by_cases first : line = start
    · subst first
      rw [if_pos rfl, h.placed.1]
      cases taken with
      | true =>
        refine leadsOn_next (k := k) unskipped (Nat.le_refl _) ?_
        rw [stack, h.opens_start, within.opens_start]
      | false =>
        refine ⟨Nat.le_succ _, ?_, ?_⟩
        · -- here the branch ends with its own `else`
          refine resumes_block within.placed within.nested rfl within.size (.past rfl ?_)
          rw [h.placed.2.2.1]
          exact .here rfl
        · change k.link.entries = opens (line + yes.size + 2)
          rw [stack, h.opens_start, other.opens_start]
    · rw [if_neg first]
      by_cases inner : line < start + yes.size + 1
      · rw [if_pos inner]
        exact (ihYes within (by omega) inner).weaken (by omega)
      · rw [if_neg inner]
        by_cases middle : line = start + yes.size + 1
        · -- the `else` behind a branch that was taken
          rw [if_pos middle]
          have same : command line = some .otherwise := middle ▸ h.placed.2.2.1
          rw [same]
          refine ⟨Nat.le_succ_of_le ge, ?_, ?_⟩
          · change Resumes command (Flow.start .branch) (line + 1) _
            rw [middle]
            refine resumes_block other.placed other.nested rfl other.size (.past rfl ?_)
            rw [h.placed.2.2.2.2.1]
            exact .here rfl
          · change k.link.entries = opens (start + yes.size + no.size + 3)
            rw [stack, middle, within.opens_stop, behind.opens_start]
        · rw [if_neg middle]
          by_cases inside : line < start + yes.size + no.size + 2
          · rw [if_pos inside]
            exact (ihNo other (by omega) inside).weaken (by omega)
          · rw [if_neg inside]
            by_cases last : line = start + yes.size + no.size + 2
            · rw [if_pos last]
              have same : command line = some .endBranch := last ▸ h.placed.2.2.2.2.1
              rw [same]
              refine leadsOn_next unskipped ge ?_
              rw [stack, last, other.opens_stop, ← behind.opens_start]
            · rw [if_neg last]
              exact (ihRest behind (by omega) lt).weaken (by omega)
  | loop kind body rest ihBody ihRest =>
    have within := h.loop_body
    have behind := h.loop_rest
    rw [next]
    by_cases first : line = start
    · subst first
      rw [if_pos rfl, h.placed.1, Control.after_head]
      cases taken with
      | true =>
        -- the depth of the script keeps the push from replacing an entry
        have fits : k.link.entries.length < k.link.capacity := by
          have depth := h.depth
          simp only [Block.depth] at depth
          rw [stack, h.opens_start, room]
          omega
        refine leadsOn_next (k := { k with link := k.link.push line }) unskipped
          (Nat.le_refl _) ?_
        rw [LinkStack.entries_push fits, stack, h.opens_start, within.opens_start]
      | false =>
        refine ⟨Nat.le_succ _, ?_, ?_⟩
        · obtain ⟨leaves, -⟩ := within.exits rfl
          exact resumes_block within.placed within.nested rfl within.size leaves
        · change k.link.entries = opens (line + body.size + 2)
          rw [stack, h.opens_start, behind.opens_start]
    · rw [if_neg first]
      by_cases inner : line < start + body.size + 1
      · rw [if_pos inner]
        exact (ihBody within (by omega) inner).weaken (by omega)
      · rw [if_neg inner]
        by_cases last : line = start + body.size + 1
        · -- the head is on top of the stack, and not open on its own line
          rw [if_pos last]
          have same : command line = some kind.terminator := last ▸ h.placed.2.2.1
          have top : k.link.entries = start :: outer := by
            rw [stack, last, within.opens_stop]
          rw [same, Control.after_terminator, LinkStack.pop_of_entries top]
          refine ⟨Nat.le_refl _, .here unskipped, ?_⟩
          exact h.opens_start.symm
        · rw [if_neg last]
          exact (ihRest behind (by omega) lt).weaken (by omega)

end Block

end LineScript
