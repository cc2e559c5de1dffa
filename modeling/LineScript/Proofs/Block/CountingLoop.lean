import LineScript.Proofs.Block.Walk
import LineScript.Proofs.Machine.Footprint
import LineScript.Proofs.Store.Labels
/-!
# Counting loops in a script

A counting loop is told by where it stands, the line it counts in and what it
counts up to. `CountingLoop.StandsIn` says that lines hold such a loop. It goes
by what the lines say, which no termination of a label changes
(`Store.wordsOf_terminateLabel`), and by arguments that no label and no other
line has a say in.

A run spares a loop if what is done on its inner lines leaves the counter, the
limit and the loop alone (`CountingLoop.Spared`).
-/

namespace LineScript

/-! ## Lines that say the same -/

namespace Store

variable {s s' : Store} {index line : Nat}

/-- What a line says is told by its slot. -/
theorem wordsOf_congr (row : s'.row = s.row) (same : s'.slots[line]? = s.slots[line]?) :
    s'.wordsOf line = s.wordsOf line := by
  simp only [wordsOf, textFrom, leading, getElem?_terminateLabel, if_pos, row, same]

/-- Termination leaves a line saying what it said. -/
theorem wordsOf_terminateLabel (s : Store) (index line : Nat) :
    (s.terminateLabel index).wordsOf line = s.wordsOf line := by
  have row := (s.terminateLabel_shape index).row
  by_cases at_it : line = index
  · subst at_it
    have slot := s.getElem?_terminateLabel line line
    have offset : ((s.terminateLabel line).leading line).offset = (s.leading line).offset := by
      simp only [leading, slot, if_pos, row]
      cases s.slots[line]? with
      | none => rfl
      | some slot =>
        exact congrArg (fun looked => looked.1.offset) (Slot.skipLeading_skipLeading slot s.row)
    have twice : (s.terminateLabel line).terminateLabel line = s.terminateLabel line := by
      refine terminateLabel_of_same fun looked there => ?_
      rw [slot, if_pos rfl] at there
      obtain ⟨slot, -, rfl⟩ := Option.map_eq_some_iff.1 there
      rw [row, Slot.skipLeading_skipLeading]
    rw [wordsOf, wordsOf, offset, twice]
  · refine wordsOf_congr row ?_
    rw [getElem?_terminateLabel, if_neg at_it]

end Store

/-! ## Arguments -/

namespace Argument

/-- What an argument refers to, if labels and other lines have no say in it. -/
def fixed? : Argument → Option Operand
  | line digits => some (.line (Numeral.toBits digits).toNat)
  | immediate t => some (.immediate t)
  | _ => none

theorem resolve_of_fixed? {arg : Argument} {o : Operand} (h : arg.fixed? = some o) (current : Nat)
    (labels : LabelTable) (s : Store) : Operand.resolve arg current labels s = o := by
  cases arg with
  | line | immediate => exact Option.some.inj h
  | label | labelPointer | relative | linePointer => cases h

theorem map_resolve {args : List Argument} {operands : List Operand}
    (h : args.map fixed? = operands.map some) (current : Nat) (labels : LabelTable) (s : Store) :
    args.map (fun arg => Operand.resolve arg current labels s) = operands := by
  induction args generalizing operands with
  | nil => exact (List.map_eq_nil_iff.1 h.symm).symm
  | cons arg args ih =>
    cases operands with
    | nil => cases h
    | cons o operands =>
      obtain ⟨first, rest⟩ := List.cons.inj h
      rw [List.map_cons, resolve_of_fixed? first, ih rest]

end Argument

/-- The first arguments on a line, behind its command. -/
def Store.argumentsOf (s : Store) (line count : Nat) : List Argument :=
  (Argument.parseAll (s.wordsOf line).2 false count).1

/-! ## Loops -/

namespace Command

/-- Whether the command does its work at once and goes on at the next line. -/
def isInner (k : Command) : Bool := k.isPlain && !k.transfers && !k.suspends && !k.halts

theorem isInner_iff {k : Command} : k.isInner = true ↔
    k.isPlain = true ∧ k.transfers = false ∧ k.suspends = false ∧ k.halts = false := by
  simp [isInner, and_assoc]

end Command

/-- A loop from its head to its end. It counts in a line outside, up to a
number that is given outright or by another line outside. -/
structure CountingLoop where
  first : Nat
  last : Nat
  counter : Nat
  limit : Operand
  ordered : first < last
  counter_outside : counter < first ∨ last < counter
  limit_outside : ∀ line ∈ limit.line?, line ≠ counter ∧ (line < first ∨ last < line)

namespace CountingLoop

variable (l : CountingLoop)

/-- The lines that a round executes. -/
def round : List (Nat × Bool) := (List.range' l.first (l.last + 1 - l.first)).map (·, true)

/-- The number the counter reads as. -/
def count (s : Store) : UInt32 := Numeral.toBits (s.line l.counter)

/-- The number that is counted up to. -/
def bound (s : Store) : UInt32 := Numeral.toBits (l.limit.text s)

/-- The loop stands in the lines of a machine, with other lines behind it. -/
structure StandsIn (c : Config) (s : Store) : Prop where
  inside : l.last + 3 ≤ c.lines
  counter_inside : l.counter < c.lines
  head : s.command? l.first = some .count
  head_arguments : (s.argumentsOf l.first 2).map Argument.fixed? =
    [some (.line l.counter), some l.limit]
  foot : s.command? l.last = some .next
  foot_arguments : (s.argumentsOf l.last 1).map Argument.fixed? = [some (.line l.counter)]
  body : ∀ line < l.last, l.first < line → ∀ k ∈ s.command? line, k.isInner = true

instance (c : Config) (s : Store) : Decidable (l.StandsIn c s) :=
  decidable_of_iff (l.last + 3 ≤ c.lines ∧ l.counter < c.lines ∧
      s.command? l.first = some .count ∧
      (s.argumentsOf l.first 2).map Argument.fixed? = [some (.line l.counter), some l.limit] ∧
      s.command? l.last = some .next ∧
      (s.argumentsOf l.last 1).map Argument.fixed? = [some (.line l.counter)] ∧
      ∀ line < l.last, l.first < line → ∀ k ∈ s.command? line, k.isInner = true)
    ⟨fun ⟨inside, counter, head, headArguments, foot, footArguments, body⟩ =>
        ⟨inside, counter, head, headArguments, foot, footArguments, body⟩,
      fun h => ⟨h.inside, h.counter_inside, h.head, h.head_arguments, h.foot, h.foot_arguments,
        h.body⟩⟩

/-- The counter and the limit are as they were, and so are the lines of the
loop, where a label may have been terminated. -/
structure Untouched (s s' : Store) : Prop where
  counter : s'.slots[l.counter]? = s.slots[l.counter]?
  limit : ∀ line ∈ l.limit.line?, s'.slots[line]? = s.slots[line]?
  lines : ∀ line ≤ l.last, l.first ≤ line →
    s'.slots[line]? = s.slots[line]? ∨ s'.slots[line]? = (s.terminateLabel line).slots[line]?

instance (s s' : Store) : Decidable (l.Untouched s s') :=
  decidable_of_iff (s'.slots[l.counter]? = s.slots[l.counter]? ∧
      (∀ line ∈ l.limit.line?, s'.slots[line]? = s.slots[line]?) ∧
      ∀ line ≤ l.last, l.first ≤ line → s'.slots[line]? = s.slots[line]? ∨
        s'.slots[line]? = (s.terminateLabel line).slots[line]?)
    ⟨fun ⟨counter, limit, lines⟩ => ⟨counter, limit, lines⟩,
      fun h => ⟨h.counter, h.limit, h.lines⟩⟩

/-- In a run from here, nothing that is done on the lines between head and end
touches the counter, the limit or the loop, until the loop is left. -/
def Spared (m : Machine) : Prop :=
  ∀ lines m', Machine.Walk l.first l.last m lines m' → l.first < m'.line → m'.line < l.last →
    l.Untouched m'.store m'.step.store

/-- The counter and the limit are as they were, and the lines of the loop say
what they said. -/
structure Keeps (s s' : Store) : Prop where
  counter : s'.slots[l.counter]? = s.slots[l.counter]?
  limit : ∀ line ∈ l.limit.line?, s'.slots[line]? = s.slots[line]?
  words : ∀ line ≤ l.last, l.first ≤ line → s'.wordsOf line = s.wordsOf line

variable {l} {c : Config} {m m' : Machine} {s s' s'' : Store} {lines : List (Nat × Bool)}

namespace Keeps

theorem refl (s : Store) : l.Keeps s s := ⟨rfl, fun _ _ => rfl, fun _ _ _ => rfl⟩

theorem trans (h : l.Keeps s s') (h' : l.Keeps s' s'') : l.Keeps s s'' where
  counter := h'.counter.trans h.counter
  limit line is := (h'.limit line is).trans (h.limit line is)
  words line le ge := (h'.words line le ge).trans (h.words line le ge)

theorem count (h : l.Keeps s s') : l.count s' = l.count s := by
  simp only [CountingLoop.count, Store.line, h.counter]

end Keeps

/-- The limit is read from its line, if it has one. -/
theorem bound_congr (same : ∀ line ∈ l.limit.line?, s'.slots[line]? = s.slots[line]?) :
    l.bound s' = l.bound s := by
  unfold bound Operand.text
  cases limit : l.limit with
  | line n =>
    have slot := same n (by rw [limit]; rfl)
    simp only [Store.line, slot]
  | immediate | empty => rfl

theorem Untouched.keeps (h : l.Untouched s s') (row : s'.row = s.row) : l.Keeps s s' where
  counter := h.counter
  limit := h.limit
  words line le ge := by
    rcases h.lines line le ge with same | terminated
    · exact Store.wordsOf_congr row same
    · have wide := row.trans (s.terminateLabel_shape line).row.symm
      exact (Store.wordsOf_congr wide terminated).trans (s.wordsOf_terminateLabel line line)

/-- Looking past the label of one of its lines keeps a loop. -/
theorem keeps_terminateLabel (s : Store) {line : Nat} (ge : l.first ≤ line) (le : line ≤ l.last) :
    l.Keeps s (s.terminateLabel line) where
  counter := by
    have outside := l.counter_outside
    rw [s.getElem?_terminateLabel, if_neg (by omega)]
  limit other is := by
    have outside := l.limit_outside other is
    rw [s.getElem?_terminateLabel, if_neg (by omega)]
  words other _ _ := s.wordsOf_terminateLabel line other

/-- Nor does a write to its counter change what its lines say. -/
theorem wordsOf_writeIfPresent (s : Store) (t : Text) :
    ∀ line ≤ l.last, l.first ≤ line →
      (s.writeIfPresent l.counter t).wordsOf line = s.wordsOf line := by
  intro line le ge
  have outside := l.counter_outside
  exact Store.wordsOf_congr rfl (Store.getElem?_writeIfPresent_of_ne t (by omega))

/-- Or its limit. -/
theorem bound_writeIfPresent (s : Store) (t : Text) :
    l.bound (s.writeIfPresent l.counter t) = l.bound s :=
  bound_congr fun line is => Store.getElem?_writeIfPresent_of_ne t (l.limit_outside line is).1

theorem StandsIn.congr (h : l.StandsIn c s)
    (words : ∀ line ≤ l.last, l.first ≤ line → s'.wordsOf line = s.wordsOf line) :
    l.StandsIn c s' := by
  have ordered := l.ordered
  have first := words l.first (Nat.le_of_lt ordered) (Nat.le_refl _)
  have last := words l.last (Nat.le_refl _) (Nat.le_of_lt ordered)
  refine ⟨h.inside, h.counter_inside, ?_, ?_, ?_, ?_, fun line lt gt k is => ?_⟩
  · rw [Store.command?, first]
    exact h.head
  · rw [Store.argumentsOf, first]
    exact h.head_arguments
  · rw [Store.command?, last]
    exact h.foot
  · rw [Store.argumentsOf, last]
    exact h.foot_arguments
  · rw [Store.command?, words line (Nat.le_of_lt lt) (Nat.le_of_lt gt)] at is
    exact h.body line lt gt k is

/-! ## Sparing a loop -/

/-- What is spared from here on is spared from further on. -/
theorem Spared.walk (h : l.Spared m) (walk : Machine.Walk l.first l.last m lines m') :
    l.Spared m' := fun _ _ further => h _ _ (walk.trans further)

/-- **A walk between head and end keeps the loop.** -/
theorem Spared.keeps (h : l.Spared m) {first last : Nat} (gt : l.first < first)
    (lt : last < l.last) (walk : Machine.Walk first last m lines m') : l.Keeps m.store m'.store := by
  induction walk with
  | stay => exact .refl _
  | @go m m' lines ge le running free _ ih =>
    have here := h [] m (.stay m) (by omega) (by omega)
    have one := Machine.Walk.single (Nat.le_of_lt (Nat.lt_of_lt_of_le gt ge))
      (Nat.le_of_lt (Nat.lt_of_le_of_lt le lt)) running free
    exact (here.keeps m.evolves_step.shape.row).trans (ih (h.walk one))

/-- Once it is known when the loop is left, only the steps before that matter. -/
theorem spared_of_leaves {n : Nat} (leaves : l.last < (Machine.step^[n] m).line)
    (untouched : ∀ k ≤ n, l.first < (Machine.step^[k] m).line → (Machine.step^[k] m).line < l.last →
      l.Untouched (Machine.step^[k] m).store (Machine.step^[k] m).step.store) : l.Spared m := by
  intro lines m' walk gt lt
  obtain ⟨k, rfl, on⟩ := walk.exists_iterate
  refine untouched k ?_ gt lt
  by_contra more
  have inside := (on n (by omega)).2.1
  omega

end CountingLoop

end LineScript
