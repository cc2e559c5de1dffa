import LineScript.Word.Command
/-!
# Nested blocks

A script whose block keywords are properly nested is a tree. The tree says
where each block begins and ends, so it says which loops are open on a line
(`Block.openLoops`) and where a run goes on after each line (`Block.next`):
the structured reading of a script, in which nothing is ever skipped or
stacked.

A line stands in the tree by its number. `Block.Placed` says that the lines of
a script from one on carry the commands of a tree.
-/

namespace LineScript

/-! ## Trees -/

/-- The two kinds of loops. -/
inductive LoopKind where
  | conditional (sides : Comparand)
  | counting

namespace LoopKind

/-- The command of the line a loop begins with. -/
def head : LoopKind → Command
  | conditional sides => .loop sides
  | counting => .count

/-- The command of the line that ends it. -/
def terminator : LoopKind → Command
  | conditional _ => .endLoop
  | counting => .next

end LoopKind

/-- Lines whose blocks are properly nested. -/
inductive Block where
  /-- No more lines. -/
  | done
  /-- A line that neither begins nor ends a block. -/
  | plain (c : Option Command) (rest : Block)
  /-- A line that leaves the innermost loop. -/
  | leave (rest : Block)
  /-- A branch without an alternative. -/
  | branch (sides : Comparand) (yes rest : Block)
  /-- A branch with an alternative. -/
  | choice (sides : Comparand) (yes no rest : Block)
  /-- A loop. -/
  | loop (kind : LoopKind) (body rest : Block)

/-- Whether a command neither begins nor ends a block, nor leaves one. -/
def Command.isPlain : Command → Bool
  | leave => false
  | c => !c.skipAware

/-- Whether a command goes to a line that blocks have no say in. -/
def Command.transfers : Command → Bool
  | jump | call | ret => true
  | _ => false

namespace Block

/-- How many lines there are. -/
def size : Block → Nat
  | done => 0
  | plain _ rest => rest.size + 1
  | leave rest => rest.size + 1
  | branch _ yes rest => yes.size + rest.size + 2
  | choice _ yes no rest => yes.size + no.size + rest.size + 3
  | loop _ body rest => body.size + rest.size + 2

/-- How many loops are open at once at most. -/
def depth : Block → Nat
  | done => 0
  | plain _ rest => rest.depth
  | leave rest => rest.depth
  | branch _ yes rest => max yes.depth rest.depth
  | choice _ yes no rest => max (max yes.depth no.depth) rest.depth
  | loop _ body rest => max (body.depth + 1) rest.depth

/-- Every other line is plain, and a loop is only left from inside one. -/
def Nested : Block → (inLoop : Bool) → Prop
  | done, _ => True
  | plain c rest, inLoop => (∀ k, c = some k → k.isPlain = true) ∧ rest.Nested inLoop
  | leave rest, inLoop => inLoop = true ∧ rest.Nested inLoop
  | branch _ yes rest, inLoop => yes.Nested inLoop ∧ rest.Nested inLoop
  | choice _ yes no rest, inLoop => yes.Nested inLoop ∧ no.Nested inLoop ∧ rest.Nested inLoop
  | loop _ body rest, inLoop => body.Nested true ∧ rest.Nested inLoop

/-- The lines from `start` on carry the commands of the tree. -/
def Placed (command : Nat → Option Command) : Block → (start : Nat) → Prop
  | done, _ => True
  | plain c rest, start => command start = c ∧ rest.Placed command (start + 1)
  | leave rest, start => command start = some .leave ∧ rest.Placed command (start + 1)
  | branch sides yes rest, start =>
    command start = some (.branch sides) ∧ yes.Placed command (start + 1) ∧
    command (start + yes.size + 1) = some .endBranch ∧
    rest.Placed command (start + yes.size + 2)
  | choice sides yes no rest, start =>
    command start = some (.branch sides) ∧ yes.Placed command (start + 1) ∧
    command (start + yes.size + 1) = some .otherwise ∧
    no.Placed command (start + yes.size + 2) ∧
    command (start + yes.size + no.size + 2) = some .endBranch ∧
    rest.Placed command (start + yes.size + no.size + 3)
  | loop kind body rest, start =>
    command start = some kind.head ∧ body.Placed command (start + 1) ∧
    command (start + body.size + 1) = some kind.terminator ∧
    rest.Placed command (start + body.size + 2)

/-! ## Open loops -/

/-- The first and the last line of every loop, by increasing first line. -/
def loops : Block → (start : Nat) → List (Nat × Nat)
  | done, _ => []
  | plain _ rest, start => rest.loops (start + 1)
  | leave rest, start => rest.loops (start + 1)
  | branch _ yes rest, start => yes.loops (start + 1) ++ rest.loops (start + yes.size + 2)
  | choice _ yes no rest, start =>
    yes.loops (start + 1) ++ no.loops (start + yes.size + 2) ++
      rest.loops (start + yes.size + no.size + 3)
  | loop _ body rest, start =>
    (start, start + body.size + 1) :: body.loops (start + 1) ++ rest.loops (start + body.size + 2)

/-- The heads of the loops that are open on a line, outermost first: those
before it whose last line is not. -/
def openLoops (b : Block) (start line : Nat) : List Nat :=
  ((b.loops start).filter fun (head, last) => head < line ∧ line ≤ last).map Prod.fst

/-! ## Where a run goes on -/

/-- The line after `line` in the structured reading, where `taken` is the
outcome of a condition on that line and `exit` is the line past the innermost
loop around the tree. A branch that is not taken goes on past its own `else`
or `endif`, and so does an `else`; a loop that is not entered, or left, goes
on past its end; and the end of a loop goes back to its head. -/
def next : Block → (start exit line : Nat) → (taken : Bool) → Nat
  | done, _, _, line, _ => line + 1
  | plain _ rest, start, exit, line, taken =>
    if line = start then line + 1 else rest.next (start + 1) exit line taken
  | leave rest, start, exit, line, taken =>
    if line = start then exit else rest.next (start + 1) exit line taken
  | branch _ yes rest, start, exit, line, taken =>
    let stop := start + yes.size + 1
    if line = start then if taken then line + 1 else stop + 1
    else if line < stop then yes.next (start + 1) exit line taken
    else if line = stop then line + 1
    else rest.next (stop + 1) exit line taken
  | choice _ yes no rest, start, exit, line, taken =>
    let middle := start + yes.size + 1
    let stop := start + yes.size + no.size + 2
    if line = start then if taken then line + 1 else middle + 1
    else if line < middle then yes.next (start + 1) exit line taken
    else if line = middle then stop + 1
    else if line < stop then no.next (middle + 1) exit line taken
    else if line = stop then line + 1
    else rest.next (stop + 1) exit line taken
  | loop _ body rest, start, exit, line, taken =>
    let stop := start + body.size + 1
    if line = start then if taken then line + 1 else stop + 1
    else if line < stop then body.next (start + 1) (stop + 1) line taken
    else if line = stop then start
    else rest.next (stop + 1) exit line taken

/-- The lines of a run, each with the outcome on it, lead from one line to
another: each is the one the structured reading goes on at. -/
def Leads (b : Block) (start : Nat) : (line : Nat) → List (Nat × Bool) → (last : Nat) → Prop
  | line, [], last => line = last
  | line, (here, taken) :: rest, last =>
    here = line ∧ b.Leads start (b.next start 0 line taken) rest last

/-- One more line. -/
theorem leads_concat {b : Block} {start line last : Nat} {lines : List (Nat × Bool)} (taken : Bool)
    (h : b.Leads start line lines last) :
    b.Leads start line (lines ++ [(last, taken)]) (b.next start 0 last taken) := by
  induction lines generalizing line with
  | nil =>
    obtain rfl : line = last := h
    exact ⟨rfl, rfl⟩
  | cons first rest ih =>
    obtain ⟨here, follows⟩ := h
    exact ⟨here, ih follows⟩

/-! ## Bounds -/

variable {b : Block} {start line : Nat}

/-- A loop begins and ends among the lines of its tree. -/
theorem loops_bounds {l : Nat × Nat} (mem : l ∈ b.loops start) :
    start ≤ l.1 ∧ l.1 < l.2 ∧ l.2 < start + b.size := by
  induction b generalizing start with
  | done => cases mem
  | plain c rest ih | leave rest ih =>
    have := ih mem
    simp only [size]
    omega
  | branch sides yes rest ihYes ihRest =>
    simp only [size]
    rcases List.mem_append.1 mem with mem | mem
    · have := ihYes mem
      omega
    · have := ihRest mem
      omega
  | choice sides yes no rest ihYes ihNo ihRest =>
    simp only [size]
    rcases List.mem_append.1 mem with mem | mem
    · rcases List.mem_append.1 mem with mem | mem
      · have := ihYes mem
        omega
      · have := ihNo mem
        omega
    · have := ihRest mem
      omega
  | loop kind body rest ihBody ihRest =>
    simp only [size]
    rcases List.mem_append.1 mem with mem | mem
    · rcases List.mem_cons.1 mem with rfl | mem
      · dsimp only
        omega
      · have := ihBody mem
        omega
    · have := ihRest mem
      omega

/-- No loop is open where the tree begins. -/
theorem openLoops_of_le (h : line ≤ start) : b.openLoops start line = [] := by
  rw [openLoops, List.map_eq_nil_iff, List.filter_eq_nil_iff]
  intro l mem inside
  have bounds := loops_bounds mem
  have := of_decide_eq_true inside
  omega

/-- And none where it has ended. -/
theorem openLoops_of_ge (h : start + b.size ≤ line) : b.openLoops start line = [] := by
  rw [openLoops, List.map_eq_nil_iff, List.filter_eq_nil_iff]
  intro l mem inside
  have bounds := loops_bounds mem
  have := of_decide_eq_true inside
  omega

end Block

end LineScript
