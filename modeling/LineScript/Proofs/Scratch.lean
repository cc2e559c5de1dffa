import LineScript.Proofs.BoundedStack
import LineScript.Proofs.Store.Clean
import Mathlib.Data.List.Induction
/-!
# The scratch stack

A stack of texts laid over the lines of a script: its floor is two lines below
the number of lines, it grows downward, and it stops at line 1. Whatever it is
asked for, and whatever else happens to the other lines in between, it holds
the texts that a bounded stack would, each as a line keeps it (`Holds.call`),
and so over every run of calls (`scratch_is_bounded_stack`).
-/

namespace LineScript

open BoundedStack (Call)

namespace Session

variable {c : Config} {s s' s'' : Session} {lines lines' lines'' : Store} {t : Text}
  {stack : List Text} {calls : List (Call Text)} {answers : List (Option Text)}

/-- A call on the scratch stack: what it gives back, and what it leaves. -/
def scratchCall (s : Session) (lines : Store) : Call Text → Option Text × Session × Store
  | .push t => (none, s.push lines t)
  | .pop => s.pop lines

/-- What may happen between two calls: anything that neither moves the stack
nor writes to the lines it may come to lie on. -/
structure Spares (c : Config) (s : Session) (lines : Store) (s' : Session) (lines' : Store) :
    Prop where
  scratch : s'.scratch = s.scratch
  floor : s'.floor = s.floor
  row : lines'.row = lines.row
  size : lines'.size = lines.size
  slots : ∀ i, 1 ≤ i → i < c.scratchFloor → lines'.slots[i]? = lines.slots[i]?

/-- A run of calls on the scratch stack, and what each of them gave back. -/
inductive ScratchRun (c : Config) (s : Session) (lines : Store) :
    List (Call Text) → List (Option Text) → Session → Store → Prop where
  | start : ScratchRun c s lines [] [] s lines
  | call {calls : List (Call Text)} {answers : List (Option Text)} {s' : Session} {lines' : Store}
      (run : ScratchRun c s lines calls answers s' lines') (call : Call Text) :
      ScratchRun c s lines (calls ++ [call]) (answers ++ [(s'.scratchCall lines' call).1])
        (s'.scratchCall lines' call).2.1 (s'.scratchCall lines' call).2.2
  | between {calls : List (Call Text)} {answers : List (Option Text)} {s' s'' : Session}
      {lines' lines'' : Store} (run : ScratchRun c s lines calls answers s' lines')
      (spares : Spares c s' lines' s'' lines'') : ScratchRun c s lines calls answers s'' lines''

/-! ## What the lines hold -/

/-- The lines from `scratch` to the floor hold a stack, the newest entry first. -/
structure Holds (c : Config) (s : Session) (lines : Store) (stack : List Text) : Prop where
  floor : s.floor = c.scratchFloor
  row : lines.row = c.row
  size : lines.size = c.lines
  scratch_pos : 1 ≤ s.scratch
  depth : s.scratch + stack.length = c.scratchFloor
  entries : ∀ k t, stack[k]? = some t → lines.slots[s.scratch + k]? = some (Slot.ofText c.row t)

/-- A stack without entries, on lines of any content. -/
theorem holds_nil (valid : c.Valid) (scratch : s.scratch = c.scratchFloor)
    (floor : s.floor = c.scratchFloor) (row : lines.row = c.row) (size : lines.size = c.lines) :
    Holds c s lines [] where
  floor := floor
  row := row
  size := size
  scratch_pos := by
    have room := valid.lines_ge
    rw [scratch, Config.scratchFloor]
    omega
  depth := scratch
  entries k t entry := by cases entry

namespace Holds

/-- **Only the lines of the stack matter.** -/
theorem congr (h : Holds c s lines stack) (scratch : s'.scratch = s.scratch)
    (floor : s'.floor = s.floor) (row : lines'.row = lines.row) (size : lines'.size = lines.size)
    (slots : ∀ i, s.scratch ≤ i → i < c.scratchFloor → lines'.slots[i]? = lines.slots[i]?) :
    Holds c s' lines' stack where
  floor := floor.trans h.floor
  row := row.trans h.row
  size := size.trans h.size
  scratch_pos := scratch ▸ h.scratch_pos
  depth := scratch ▸ h.depth
  entries k t entry := by
    have within := (List.getElem?_eq_some_iff.1 entry).1
    have depth := h.depth
    rw [scratch, slots _ (by omega) (by omega)]
    exact h.entries k t entry

/-- A line below the stack may be written to. -/
theorem writeIfPresent (h : Holds c s lines stack) {i : Nat} (below : i < s.scratch) (t : Text) :
    Holds c s (lines.writeIfPresent i t) stack := by
  have shape := (Store.evolves_writeIfPresent lines i t).shape
  refine h.congr rfl rfl shape.row shape.size fun j above _ => ?_
  exact Store.getElem?_writeIfPresent_of_ne t (by omega)

/-- **An entry reads as what its line keeps of it.** -/
theorem read (h : Holds c s lines stack) {k : Nat} (entry : stack[k]? = some t) :
    lines.read (s.scratch + k) = .ok (Slot.kept c.row t) := by
  rw [Store.read, Store.slot, h.entries k t entry, ← Slot.text_ofText]
  rfl

/-- The line of the newest entry. -/
theorem newest (h : Holds c s lines (t :: stack)) :
    lines.slots[s.scratch]? = some (Slot.ofText c.row t) := h.entries 0 t rfl

/-- A line of nothing in place of it is blank. -/
theorem blank_written (h : Holds c s lines (t :: stack)) :
    (lines.writeIfPresent s.scratch []).slots[s.scratch]? = some (Slot.blank c.row) := by
  have there := (Array.getElem?_eq_some_iff.1 h.newest).1
  rw [Store.getElem?_writeIfPresent_self there, h.row, Slot.blank_eq_ofText]

/-- The entries below the newest one are a stack. -/
theorem tail (h : Holds c s lines (t :: stack)) :
    Holds c { s with scratch := s.scratch + 1 } lines stack where
  floor := h.floor
  row := h.row
  size := h.size
  scratch_pos := Nat.succ_le_succ (Nat.zero_le _)
  depth := by
    have depth := h.depth
    rw [List.length_cons] at depth
    dsimp only
    omega
  entries k u entry := by
    rw [Nat.add_assoc, Nat.add_comm 1]
    exact h.entries (k + 1) u entry

/-- A text on the line above the newest entry is a new entry. -/
theorem cons (h : Holds c { s with scratch := s.scratch + 1 } lines stack)
    (pos : 1 ≤ s.scratch) (t : Text) :
    Holds c s (lines.writeIfPresent s.scratch t) (t :: stack) := by
  have depth := h.depth
  dsimp only at depth
  have room : s.scratch < lines.size := by
    rw [h.size]
    rw [Config.scratchFloor] at depth
    omega
  have rest := h.writeIfPresent (Nat.lt_succ_self s.scratch) t
  refine ⟨h.floor, rest.row, rest.size, pos, ?_, fun k u entry => ?_⟩
  · rw [List.length_cons]
    omega
  · cases k with
    | zero =>
      obtain rfl := Option.some.inj entry
      rw [← h.row]
      exact Store.getElem?_writeIfPresent_self room t
    | succ k =>
      rw [Nat.add_comm k, ← Nat.add_assoc]
      exact rest.entries k u entry

/-- **A push puts its text on top**, over the newest entry if line 1 is taken. -/
theorem push (h : Holds c s lines stack) (valid : c.Valid) (t : Text) :
    Holds c (s.push lines t).1 (s.push lines t).2 (BoundedStack.push (c.lines - 3) stack t) := by
  have lines_ge := valid.lines_ge
  have pos := h.scratch_pos
  have depth := h.depth
  rw [Config.scratchFloor] at depth
  unfold Session.push
  dsimp only
  by_cases room : 1 < s.scratch
  · have above : s.scratch - 1 + 1 = s.scratch := by omega
    rw [if_pos room, BoundedStack.push_of_lt (by omega)]
    refine cons (s := { s with scratch := s.scratch - 1 }) ?_ (by dsimp only; omega) t
    dsimp only
    rw [above]
    exact h
  · rw [if_neg room, BoundedStack.push_of_le (by omega)]
    cases stack with
    | nil =>
      rw [List.length_nil] at depth
      omega
    | cons newest older => exact h.tail.cons pos t

/-- A pop from an empty stack does nothing. -/
theorem pop_nil (h : Holds c s lines []) : s.pop lines = (none, s, lines) := by
  have depth := h.depth
  have floor := h.floor
  rw [List.length_nil] at depth
  rw [Session.pop, if_pos (by omega)]

/-- **A pop takes the newest text off**, as its line kept it, and blanks that line. -/
theorem pop_cons (h : Holds c s lines (t :: stack)) :
    s.pop lines = (some (Slot.kept c.row t), { s with scratch := s.scratch + 1 },
      lines.writeIfPresent s.scratch []) := by
  have depth := h.depth
  have floor := h.floor
  have read : lines.read s.scratch = .ok (Slot.kept c.row t) := h.read (k := 0) rfl
  rw [List.length_cons] at depth
  rw [Session.pop, if_neg (by omega), read]

/-- So the line of a text that was taken off is blank. -/
theorem blank_of_pop (h : Holds c s lines stack) (taken : (s.pop lines).1 = some t) :
    (s.pop lines).2.2.slots[s.scratch]? = some (Slot.blank c.row) := by
  cases stack with
  | nil =>
    rw [h.pop_nil] at taken
    cases taken
  | cons newest older =>
    rw [h.pop_cons]
    exact h.blank_written

/-- **A call does to the texts what it does to a bounded stack**, and gives
back what it gives, as a line keeps it. -/
theorem call (h : Holds c s lines stack) (valid : c.Valid) (call : Call Text) :
    (s.scratchCall lines call).1 = (BoundedStack.answer stack call).map (Slot.kept c.row) ∧
      Holds c (s.scratchCall lines call).2.1 (s.scratchCall lines call).2.2
        (BoundedStack.apply (c.lines - 3) stack call) := by
  cases call with
  | push t => exact ⟨rfl, h.push valid t⟩
  | pop =>
    cases stack with
    | nil =>
      rw [scratchCall, h.pop_nil]
      exact ⟨rfl, h⟩
    | cons newest older =>
      rw [scratchCall, h.pop_cons]
      exact ⟨rfl, h.tail.writeIfPresent (Nat.lt_succ_self s.scratch) []⟩

/-- **A call writes to one line at most**, and to one that is the stack's. -/
theorem exists_written (h : Holds c s lines stack) (valid : c.Valid) (call : Call Text) :
    ∃ line, 1 ≤ line ∧ line < c.scratchFloor ∧ ∀ i, i ≠ line →
      (s.scratchCall lines call).2.2.slots[i]? = lines.slots[i]? := by
  have lines_ge := valid.lines_ge
  have floor : c.scratchFloor = c.lines - 2 := rfl
  have pos := h.scratch_pos
  have depth := h.depth
  cases call with
  | push t =>
    refine ⟨(s.push lines t).1.scratch, (h.push valid t).scratch_pos, ?_, fun i other => ?_⟩
    · unfold Session.push
      dsimp only
      split <;> omega
    · exact Store.getElem?_writeIfPresent_of_ne t other
  | pop =>
    cases stack with
    | nil =>
      rw [scratchCall, h.pop_nil]
      exact ⟨1, Nat.le_refl 1, by omega, fun i _ => rfl⟩
    | cons newest older =>
      rw [List.length_cons] at depth
      rw [scratchCall, h.pop_cons]
      exact ⟨s.scratch, pos, by omega, fun i other => Store.getElem?_writeIfPresent_of_ne [] other⟩

/-- **What a call leaves above the stack**: what was there before, and a blank
line in place of the entry that it takes off. -/
theorem above_call (h : Holds c s lines stack) (call : Call Text) {i : Nat}
    (above : i < (s.scratchCall lines call).2.1.scratch) :
    (i < s.scratch ∧ (s.scratchCall lines call).2.2.slots[i]? = lines.slots[i]?) ∨
      (i = s.scratch ∧ (s.scratchCall lines call).2.2.slots[i]? = some (Slot.blank c.row)) := by
  cases call with
  | push t =>
    refine .inl ⟨?_, Store.getElem?_writeIfPresent_of_ne t (Nat.ne_of_lt above)⟩
    refine Nat.lt_of_lt_of_le above ?_
    dsimp only [scratchCall, Session.push]
    split <;> omega
  | pop =>
    cases stack with
    | nil =>
      rw [scratchCall, h.pop_nil] at above ⊢
      exact .inl ⟨above, rfl⟩
    | cons newest older =>
      rw [scratchCall, h.pop_cons] at above ⊢
      rcases Nat.lt_succ_iff_lt_or_eq.1 above with before | rfl
      · exact .inl ⟨before, Store.getElem?_writeIfPresent_of_ne [] (Nat.ne_of_lt before)⟩
      · exact .inr ⟨rfl, h.blank_written⟩

end Holds

/-! ## Runs -/

/-- Whether the stack has come to lie on a line in the course of some calls. -/
def HasUsed (c : Config) (calls : List (Call Text)) (i : Nat) : Prop :=
  ∃ before, before <+: calls ∧
    c.scratchFloor ≤ i + (BoundedStack.after (c.lines - 3) [] before).length

namespace ScratchRun

/-- **The stack is held all along.** -/
theorem holds (run : ScratchRun c s lines calls answers s' lines') (valid : c.Valid)
    (begins : Holds c s lines []) :
    Holds c s' lines' (BoundedStack.after (c.lines - 3) [] calls) := by
  induction run with
  | start => exact begins
  | call _ call ih =>
    rw [BoundedStack.after_concat]
    exact (ih.call valid call).2
  | between _ spares ih =>
    have pos := ih.scratch_pos
    exact ih.congr spares.scratch spares.floor spares.row spares.size
      fun i above below => spares.slots i (by omega) below

/-- What the calls give back. -/
theorem answers_eq (run : ScratchRun c s lines calls answers s' lines') (valid : c.Valid)
    (begins : Holds c s lines []) :
    answers = (BoundedStack.answers (c.lines - 3) [] calls).map (Option.map (Slot.kept c.row)) := by
  induction run with
  | start => rfl
  | call run call ih =>
    rw [ih, ((run.holds valid begins).call valid call).1, BoundedStack.answers_concat,
      List.map_append]
    rfl
  | between _ _ ih => exact ih

/-- **What lies above the stack**: blank lines where it once was, and what was
there before where it never came to. -/
theorem above (run : ScratchRun c s lines calls answers s' lines') (valid : c.Valid)
    (begins : Holds c s lines []) {i : Nat} (pos : 1 ≤ i) (above : i < s'.scratch) :
    (HasUsed c calls i → lines'.slots[i]? = some (Slot.blank c.row)) ∧
      (¬ HasUsed c calls i → lines'.slots[i]? = lines.slots[i]?) := by
  induction run with
  | start =>
    refine ⟨fun ⟨before, leads, reached⟩ => ?_, fun _ => rfl⟩
    have depth := begins.depth
    obtain rfl := List.prefix_nil.1 leads
    change c.scratchFloor ≤ i + 0 at reached
    rw [List.length_nil] at depth
    omega
  | @call calls answers s' lines' run call ih =>
    have held := run.holds valid begins
    have depth := (held.call valid call).2.depth
    rw [← BoundedStack.after_concat] at depth
    -- the last call leaves the stack below the line
    have earlier : HasUsed c (calls ++ [call]) i → HasUsed c calls i := by
      rintro ⟨before, leads, reached⟩
      rcases List.prefix_concat_iff.1 leads with rfl | leads
      · omega
      · exact ⟨before, leads, reached⟩
    have later : HasUsed c calls i → HasUsed c (calls ++ [call]) i := by
      rintro ⟨before, leads, reached⟩
      exact ⟨before, leads.trans (List.prefix_append _ _), reached⟩
    rcases held.above_call call above with ⟨below, same⟩ | ⟨rfl, blank⟩
    · rw [same]
      exact ⟨fun used => (ih below).1 (earlier used), fun free => (ih below).2 (free ∘ later)⟩
    · have used : HasUsed c calls s'.scratch := ⟨calls, List.prefix_refl _, held.depth.ge⟩
      exact ⟨fun _ => blank, fun free => absurd (later used) free⟩
  | between run spares ih =>
    have depth := (run.holds valid begins).depth
    rw [spares.scratch] at above
    rw [spares.slots i pos (by omega)]
    exact ih above

/-- There is a run of every sequence of calls. -/
theorem exists_of_calls (c : Config) (s : Session) (lines : Store) (calls : List (Call Text)) :
    ∃ answers s' lines', ScratchRun c s lines calls answers s' lines' := by
  induction calls using List.reverseRecOn with
  | nil => exact ⟨[], s, lines, .start⟩
  | append_singleton calls call ih =>
    obtain ⟨answers, s', lines', run⟩ := ih
    exact ⟨_, _, _, run.call call⟩

end ScratchRun

/-- **The scratch stack is a bounded stack** of all but three lines, in every
configuration that passes, from a new or reset session on, over lines of any
content, and whatever is pushed or popped while nothing else writes to those
lines. It gives back each text as a line keeps it, its entries fill the lines
from its top to its floor, it leaves blank lines behind, and it touches none
of the three lines that are not its own. -/
theorem scratch_is_bounded_stack (valid : c.validate = .ok c)
    (begins : s = new c ∨ ∃ (used : Session) (heap : Heap),
      used.floor = c.scratchFloor ∧ s = (used.reset heap).1)
    (row : lines.row = c.row) (size : lines.size = c.lines)
    (run : ScratchRun c s lines calls answers s' lines') :
    let stack := BoundedStack.after (c.lines - 3) [] calls
    answers = (BoundedStack.answers (c.lines - 3) [] calls).map (Option.map (Slot.kept c.row)) ∧
    (∀ t, Utf8.LongestFit (c.row - 1) (t.takeWhile (· ≠ '\x00')) (Slot.kept c.row t)) ∧
    stack.length ≤ c.lines - 3 ∧ stack.length = c.lines - 2 - s'.scratch ∧
    (1 ≤ s'.scratch ∧ s'.scratch ≤ c.lines - 2) ∧
    (∀ k t, stack[k]? = some t → lines'.read (s'.scratch + k) = .ok (Slot.kept c.row t)) ∧
    (∀ t, (s'.pop lines').1 = some t →
      (s'.pop lines').2.2.slots[s'.scratch]? = some (Slot.blank c.row)) ∧
    (∀ i, 1 ≤ i → i < s'.scratch →
      (HasUsed c calls i → lines'.slots[i]? = some (Slot.blank c.row)) ∧
      (¬ HasUsed c calls i → lines'.slots[i]? = lines.slots[i]?)) ∧
    ∀ call i, i = 0 ∨ c.lines - 2 ≤ i →
      (s'.scratchCall lines' call).2.2.slots[i]? = lines'.slots[i]? := by
  dsimp only
  have passed := Config.Valid.of_validate valid
  have lines_ge := passed.lines_ge
  have empty : Holds c s lines [] := by
    rcases begins with rfl | ⟨used, heap, floor, rfl⟩
    · exact holds_nil passed rfl rfl row size
    · exact holds_nil passed floor floor row size
  have held := run.holds passed empty
  have depth := held.depth
  rw [Config.scratchFloor] at depth
  refine ⟨run.answers_eq passed empty, fun t => Utf8.longestFit_fit _ _,
    BoundedStack.length_after_le (by omega) (Nat.zero_le _) calls, by omega,
    ⟨held.scratch_pos, by omega⟩, fun k t entry => held.read entry,
    fun t taken => held.blank_of_pop taken, fun i pos above => run.above passed empty pos above,
    fun call i outside => ?_⟩
  obtain ⟨line, pos, below, same⟩ := held.exists_written passed call
  rw [Config.scratchFloor] at below
  exact same i (by omega)

/-- Of three texts on two lines, the second is written over, and the third is
cut before its NUL. -/
theorem scratch_is_bounded_stack_full :
    ∃ c answers s' lines', Config.validate c = .ok c ∧
      ScratchRun c (new c) (Store.new 5 8) [.push "one, two".toList, .push "three".toList,
        .push "four\x00five".toList, .pop, .pop, .pop, .push "six".toList] answers s' lines' ∧
      answers = [none, none, none, some "four".toList, some "one, tw".toList, none, none] ∧
      s'.scratch = 2 ∧ lines'.read 2 = .ok "six".toList ∧
      lines'.slots[1]? = some (Slot.blank 8) := by
  obtain ⟨answers, s', lines', run⟩ := ScratchRun.exists_of_calls { lines := 5, row := 8 }
    (new { lines := 5, row := 8 }) (Store.new 5 8) [.push "one, two".toList, .push "three".toList,
      .push "four\x00five".toList, .pop, .pop, .pop, .push "six".toList]
  obtain ⟨given, -, -, depth, bounds, entries, -, above, -⟩ :=
    scratch_is_bounded_stack rfl (.inl rfl) rfl rfl run
  have top : s'.scratch = 2 := by
    change 1 = 5 - 2 - s'.scratch at depth
    omega
  rw [top] at entries above
  refine ⟨_, answers, s', lines', rfl, run, ?_, top, ?_, ?_⟩
  · rw [given]
    decide +kernel
  · rw [entries 0 "six".toList rfl]
    decide +kernel
  · refine (above 1 (Nat.le_refl 1) (by decide)).1 ⟨[.push "one, two".toList, .push "three".toList], ?_, ?_⟩
    all_goals decide

end Session

end LineScript
