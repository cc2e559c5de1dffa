import LineScript.Proofs.Session
/-!
# Bounded stacks

What the link stack and the scratch stack come down to: a list, the newest
entry first, on which a push at full depth replaces the newest entry and a pop
from the empty list changes nothing. Such a list never outgrows its depth
(`length_after_le`), and the link stack is one, call by call and so over every
sequence of calls (`LinkStack.answers_eq`, `LinkStack.entries_after`).
-/

namespace LineScript

namespace BoundedStack

variable {α : Type} {depth : Nat} {stack : List α}

/-- What a stack can be asked for. -/
inductive Call (α : Type) where
  | push (entry : α)
  | pop
deriving DecidableEq

/-- Puts an entry on top, in place of the newest one if there is no room. -/
def push (depth : Nat) (stack : List α) (entry : α) : List α :=
  if stack.length < depth then entry :: stack else entry :: stack.tail

/-- The stack a call leaves. -/
def apply (depth : Nat) (stack : List α) : Call α → List α
  | .push entry => push depth stack entry
  | .pop => stack.tail

/-- What a call gives back: the newest entry, if it asks for one. -/
def answer (stack : List α) : Call α → Option α
  | .push _ => none
  | .pop => stack.head?

/-- The stack that a sequence of calls leaves. -/
def after (depth : Nat) (stack : List α) (calls : List (Call α)) : List α :=
  calls.foldl (apply depth) stack

/-- What each of the calls gives back. -/
def answers (depth : Nat) (stack : List α) : List (Call α) → List (Option α)
  | [] => []
  | call :: rest => answer stack call :: answers depth (apply depth stack call) rest

/-! ## Depth -/

theorem push_of_lt (room : stack.length < depth) (entry : α) :
    push depth stack entry = entry :: stack := if_pos room

theorem push_of_le (full : depth ≤ stack.length) (entry : α) :
    push depth stack entry = entry :: stack.tail := if_neg (Nat.not_lt.2 full)

/-- **No call outgrows the depth.** -/
theorem length_apply_le (pos : 1 ≤ depth) (within : stack.length ≤ depth) (call : Call α) :
    (apply depth stack call).length ≤ depth := by
  cases call with
  | push entry =>
    rcases Nat.lt_or_ge stack.length depth with room | full
    · rw [apply, push_of_lt room, List.length_cons]
      exact room
    · rw [apply, push_of_le full, List.length_cons, List.length_tail]
      omega
  | pop =>
    rw [apply, List.length_tail]
    omega

/-- Nor do any number of them. -/
theorem length_after_le (pos : 1 ≤ depth) (within : stack.length ≤ depth) (calls : List (Call α)) :
    (after depth stack calls).length ≤ depth := by
  induction calls generalizing stack with
  | nil => exact within
  | cons call rest ih => exact ih (length_apply_le pos within call)

/-- **What lies at the bottom stays there**, if no push replaces an entry and
the stack does not become shorter than that. -/
theorem suffix_apply {bottom : List α} {call : Call α} (under : bottom <:+ stack)
    (room : ∀ entry, call = .push entry → stack.length < depth)
    (stays : bottom.length ≤ (apply depth stack call).length) :
    bottom <:+ apply depth stack call := by
  cases call with
  | push entry =>
    rw [apply, push_of_lt (room entry rfl)]
    exact under.trans (List.suffix_cons entry stack)
  | pop => exact List.suffix_of_suffix_length_le under (List.tail_suffix stack) stays

/-! ## One call more -/

theorem after_concat (stack : List α) (calls : List (Call α)) (call : Call α) :
    after depth stack (calls ++ [call]) = apply depth (after depth stack calls) call := by
  rw [after, List.foldl_append]
  rfl

theorem answers_concat (stack : List α) (calls : List (Call α)) (call : Call α) :
    answers depth stack (calls ++ [call]) =
      answers depth stack calls ++ [answer (after depth stack calls) call] := by
  induction calls generalizing stack with
  | nil => rfl
  | cons first rest ih =>
    rw [List.cons_append, answers, answers, ih, List.cons_append]
    rfl

end BoundedStack

/-! ## The link stack -/

namespace LinkStack

open BoundedStack (Call)

/-- The link stack a call leaves. -/
def apply (s : LinkStack) : Call Nat → LinkStack
  | .push line => s.push line
  | .pop => s.pop.2

/-- What a call gives back. -/
def answer (s : LinkStack) : Call Nat → Option Nat
  | .push _ => none
  | .pop => s.pop.1

/-- The link stack that a sequence of calls leaves. -/
def after (s : LinkStack) (calls : List (Call Nat)) : LinkStack := calls.foldl apply s

/-- What each of the calls gives back. -/
def answers (s : LinkStack) : List (Call Nat) → List (Option Nat)
  | [] => []
  | call :: rest => s.answer call :: answers (s.apply call) rest

variable {s : LinkStack}

@[simp] theorem capacity_apply (s : LinkStack) (call : Call Nat) :
    (s.apply call).capacity = s.capacity := by
  cases call with
  | push line => exact capacity_push s line
  | pop => exact capacity_pop s

/-- **A call does to the entries what it does to a bounded stack.** -/
theorem entries_apply (pos : 1 ≤ s.capacity) (call : Call Nat) :
    (s.apply call).entries = BoundedStack.apply s.capacity s.entries call := by
  cases call with
  | push line =>
    rcases Nat.lt_or_ge s.entries.length s.capacity with room | full
    · rw [apply, entries_push room, BoundedStack.apply, BoundedStack.push_of_lt room]
    · have replaces : s.isFull = true := decide_eq_true full
      rw [apply, push, if_pos replaces, BoundedStack.apply, BoundedStack.push_of_le full]
      split
      · next none =>
        rw [none, List.length_nil] at full
        omega
      · next some => rw [some, List.tail_cons]
  | pop => exact entries_pop s

/-- And gives back the same. -/
theorem answer_eq (s : LinkStack) (call : Call Nat) :
    s.answer call = BoundedStack.answer s.entries call := by
  cases call with
  | push line => rfl
  | pop =>
    change s.pop.1 = s.entries.head?
    unfold pop
    split
    · next none => rw [none]; rfl
    · next some => rw [some]; rfl

@[simp] theorem capacity_after (s : LinkStack) (calls : List (Call Nat)) :
    (s.after calls).capacity = s.capacity := by
  induction calls generalizing s with
  | nil => rfl
  | cons call rest ih => exact (ih (s.apply call)).trans (capacity_apply s call)

/-- **A link stack is a bounded stack**, whatever it is asked for. -/
theorem entries_after (pos : 1 ≤ s.capacity) (calls : List (Call Nat)) :
    (s.after calls).entries = BoundedStack.after s.capacity s.entries calls := by
  induction calls generalizing s with
  | nil => rfl
  | cons call rest ih =>
    rw [after, List.foldl_cons, BoundedStack.after, List.foldl_cons, ← entries_apply pos,
      ← capacity_apply s call]
    exact ih ((capacity_apply s call).symm ▸ pos)

theorem answers_eq (pos : 1 ≤ s.capacity) (calls : List (Call Nat)) :
    s.answers calls = BoundedStack.answers s.capacity s.entries calls := by
  induction calls generalizing s with
  | nil => rfl
  | cons call rest ih =>
    rw [answers, BoundedStack.answers, answer_eq, ← entries_apply pos, ← capacity_apply s call]
    exact congrArg _ (ih ((capacity_apply s call).symm ▸ pos))

end LinkStack

end LineScript
