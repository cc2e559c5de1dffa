import LineScript.Proofs.Arrays.Packing
import LineScript.Proofs.Board.Heap
import Mathlib.Logic.Function.Basic
/-!
# The blocks of arrays

`ArrayTable.Holds` says that a table and a heap hold the arrays of a map from
entries to elements of some width: every array of the map is packed in a
block of its own, there is no other block, and the words in use are those of
the arrays. Emptying an entry keeps this, and so does filling one, as long as
the count of handles does not start again.
-/

namespace LineScript

/-! ## Contents -/

/-- What the entries of a table hold: nothing, or elements of a width. -/
abbrev Contents := Nat → Option (Width × List UInt32)

namespace Contents

/-- The heap words an entry takes: its bytes, four to a word, and one at least. -/
def words : Option (Width × List UInt32) → Nat
  | some (w, elements) => max 1 ((elements.length * w.bytes + 3) / 4)
  | none => 0

/-- An empty entry takes none. -/
theorem words_none : words none = 0 := rfl

variable {f : Contents} {id : Nat} {n : Nat}

/-- The heap words that the first `n` entries take. -/
def used (f : Contents) : (n : Nat) → Nat
  | 0 => 0
  | n + 1 => used f n + words (f n)

/-- Entries further on take nothing of them. -/
theorem used_update_of_le (f : Contents) (outside : n ≤ id) (a : Option (Width × List UInt32)) :
    used (Function.update f id a) n = f.used n := by
  induction n with
  | zero => rfl
  | succ n ih => rw [used, used, ih (by omega), Function.update_of_ne (by omega)]

/-- **One entry's words are exchanged for others.** -/
theorem used_update (f : Contents) (inside : id < n) (a : Option (Width × List UInt32)) :
    used (Function.update f id a) n + words (f id) = f.used n + words a := by
  induction n with
  | zero => exact absurd inside (Nat.not_lt_zero id)
  | succ n ih =>
    rw [used, used]
    by_cases last : id = n
    · subst last
      rw [f.used_update_of_le (Nat.le_refl id), Function.update_self]
      omega
    · have earlier := ih (by omega)
      rw [Function.update_of_ne (Ne.symm last)]
      omega

theorem words_le_used (f : Contents) (inside : id < n) : words (f id) ≤ f.used n := by
  have emptied := f.used_update inside none
  rw [words_none] at emptied
  omega

theorem used_none (n : Nat) : used (fun _ => none) n = 0 := by
  induction n with
  | zero => rfl
  | succ n ih => rw [used, ih, words_none]

end Contents

/-! ## Blocks of arrays -/

namespace Width

/-- The heap words of a block for some elements. -/
def block (w : Width) (elements : List UInt32) : List UInt32 :=
  w.pack elements ++ List.replicate (max (w.pack elements).length 1 - (w.pack elements).length) 0

theorem length_block (w : Width) (elements : List UInt32) :
    (w.block elements).length = Contents.words (some (w, elements)) := by
  rw [block, List.length_append, List.length_replicate, length_pack, Contents.words, wordsFor_eq]
  omega

theorem take_block (w : Width) (elements : List UInt32) :
    (w.block elements).take (w.wordsFor elements.length) = w.pack elements := by
  rw [block, ← length_pack, List.take_left]

theorem wordsFor_le_length_block (w : Width) (elements : List UInt32) :
    w.wordsFor elements.length ≤ (w.block elements).length := by
  rw [block, List.length_append, length_pack]
  omega

end Width

namespace ArrayTable

variable {t : ArrayTable} {heap : Heap} {f : Contents} {id : Nat} {w : Width}
  {elements : List UInt32}

/-- **Packing into a new block** fails when there is no room, and else adds a
block of the packed elements. -/
theorem allocate_eq (heap : Heap) (w : Width) (elements : List UInt32) :
    allocate heap w elements =
      if Heap.capacity < heap.used + Contents.words (some (w, elements)) then .error .heapFull
      else .ok (Heap.nextHandle heap.last, heap.grow (w.block elements)) := by
  have size : max (w.pack elements).length 1 = Contents.words (some (w, elements)) := by
    rw [Width.length_pack, Contents.words, Width.wordsFor_eq, Nat.max_comm]
  rw [allocate, Heap.alloc_eq, ← size]
  split
  · rfl
  · next room =>
    have capacity : Heap.capacity < 2 ^ 64 := by decide
    have stored := heap.store_grow (List.replicate (max (w.pack elements).length 1) 0)
      (w.pack elements) (by rw [List.length_replicate]; omega) (by rw [List.length_replicate]; omega)
    rw [List.drop_replicate, ← Width.block] at stored
    simp only [bind, Except.bind, stored]
    rfl

/-! ## Entries -/

/-- The table with one entry replaced. -/
def replace (t : ArrayTable) (id : Nat) (entry : Option ArrayEntry) : ArrayTable :=
  { entries := t.entries.setIfInBounds id entry }

@[simp] theorem capacity_replace (t : ArrayTable) (id : Nat) (entry : Option ArrayEntry) :
    (t.replace id entry).capacity = t.capacity := Array.size_setIfInBounds

theorem get?_replace_self (inside : id < t.capacity) (entry : Option ArrayEntry) :
    (t.replace id entry).get? id = entry := by
  have there : id < (t.entries.setIfInBounds id entry).size := by
    rwa [Array.size_setIfInBounds]
  rw [get?, replace, Array.getD_eq_getD_getElem?, Array.getElem?_eq_getElem there,
    Array.getElem_setIfInBounds_self]
  rfl

theorem get?_replace_of_ne {id' : Nat} (other : id' ≠ id) (entry : Option ArrayEntry) :
    (t.replace id entry).get? id' = t.get? id' := by
  rw [get?, get?, replace, Array.getD_eq_getD_getElem?, Array.getD_eq_getD_getElem?,
    Array.getElem?_setIfInBounds_ne (Ne.symm other)]

theorem get?_of_le (outside : t.capacity ≤ id) : t.get? id = none := by
  rw [get?, Array.getD_eq_getD_getElem?, Array.getElem?_eq_none outside]
  rfl

theorem lt_of_get? {entry : ArrayEntry} (h : t.get? id = some entry) : id < t.capacity := by
  by_contra outside
  rw [get?_of_le (by omega)] at h
  cases h

/-- Freeing an entry that holds an array. -/
theorem free_of_get? {entry : ArrayEntry} (h : t.get? id = some entry) :
    t.free heap id = (true, t.replace id none, heap.release entry.handle) := by
  rw [free, h]
  rfl

/-- Freeing an empty entry. -/
theorem free_of_empty (h : t.get? id = none) : t.free heap id = (false, t, heap) := by
  rw [free, h]

@[simp] theorem capacity_free (t : ArrayTable) (heap : Heap) (id : Nat) :
    (t.free heap id).2.1.capacity = t.capacity := by
  cases h : t.get? id with
  | none => rw [free_of_empty h]
  | some entry => rw [free_of_get? h, capacity_replace]

theorem get?_free_of_ne {id' : Nat} (other : id' ≠ id) (t : ArrayTable) (heap : Heap) :
    (t.free heap id).2.1.get? id' = t.get? id' := by
  cases h : t.get? id with
  | none => rw [free_of_empty h]
  | some entry => rw [free_of_get? h, get?_replace_of_ne other]

@[simp] theorem last_free (t : ArrayTable) (heap : Heap) (id : Nat) :
    (t.free heap id).2.2.last = heap.last := by
  cases h : t.get? id with
  | none => rw [free_of_empty h]
  | some entry => rw [free_of_get? h, Heap.last_release]

/-! ## Holding -/

/-- The table and the heap hold the arrays of a map, and nothing else. -/
structure Holds (t : ArrayTable) (heap : Heap) (f : Contents) : Prop where
  /-- An array of the map is packed in the block of its entry. -/
  held : ∀ id w elements, f id = some (w, elements) →
    ∃ h, t.get? id = some ⟨h, w, elements.length⟩ ∧ heap.blocks.lookup h = some (w.block elements)
  empty : ∀ id, f id = none → t.get? id = none
  /-- Every block is that of an entry. -/
  owned : ∀ h words, heap.blocks.lookup h = some words → ∃ id e, t.get? id = some e ∧ e.handle = h
  /-- No two entries share a block. -/
  apart : ∀ id id' e e', t.get? id = some e → t.get? id' = some e' → e.handle = e'.handle → id = id'
  /-- The next handle is larger than those in use. -/
  issued : ∀ id e, t.get? id = some e → e.handle.toNat ≤ heap.last.toNat
  distinct : heap.Distinct
  used : heap.used = f.used t.capacity
  within : heap.used ≤ Heap.capacity

/-- A new table and a new heap hold nothing. -/
theorem holds_new (n : Nat) : (new n).Holds {} fun _ => none where
  held id w elements h := nomatch h
  empty id _ := by
    rw [get?, new, Array.getD_eq_getD_getElem?, Array.getElem?_replicate]
    split <;> rfl
  owned h words there := nomatch there
  apart id id' e e' h := by
    rw [get?, new, Array.getD_eq_getD_getElem?, Array.getElem?_replicate] at h
    split at h <;> cases h
  issued id e h := by
    rw [get?, new, Array.getD_eq_getD_getElem?, Array.getElem?_replicate] at h
    split at h <;> cases h
  distinct := List.nodup_nil
  used := (Contents.used_none _).symm
  within := Nat.zero_le _

namespace Holds

/-- An array of the map is one of the entries there are. -/
theorem lt_of_some (h : t.Holds heap f) (there : f id = some (w, elements)) : id < t.capacity := by
  obtain ⟨handle, entry, -⟩ := h.held id w elements there
  exact lt_of_get? entry

/-- The block of an entry. -/
theorem lookup (h : t.Holds heap f) {e : ArrayEntry} (there : t.get? id = some e) :
    ∃ elements, f id = some (e.width, elements) ∧ e.size = elements.length ∧
      heap.blocks.lookup e.handle = some (e.width.block elements) := by
  cases array : f id with
  | none =>
    rw [h.empty id array] at there
    cases there
  | some a =>
    obtain ⟨w, elements⟩ := a
    obtain ⟨handle, entry, block⟩ := h.held id w elements array
    rw [entry] at there
    cases there
    exact ⟨elements, rfl, rfl, block⟩

/-- **Freeing an entry empties it** and leaves the others. -/
theorem free (h : t.Holds heap f) (id : Nat) :
    (t.free heap id).2.1.Holds (t.free heap id).2.2 (Function.update f id none) := by
  cases array : f id with
  | none =>
    rw [free_of_empty (h.empty id array), ← array, Function.update_eq_self]
    exact h
  | some a =>
    obtain ⟨w, elements⟩ := a
    obtain ⟨handle, entry, block⟩ := h.held id w elements array
    have inside := lt_of_get? entry
    have other : ∀ {id' e}, (t.replace id none).get? id' = some e → id' ≠ id ∧ t.get? id' = some e := by
      intro id' e there
      by_cases same : id' = id
      · rw [same, get?_replace_self inside] at there
        cases there
      · rw [get?_replace_of_ne same] at there
        exact ⟨same, there⟩
    have words := f.used_update inside none
    rw [array, ← Width.length_block, Contents.words_none] at words
    have released : (heap.release handle).used = heap.used - (w.block elements).length := by
      rw [Heap.release_of_lookup block]
    have used := h.used
    rw [free_of_get? entry]
    refine {
      held := fun id' w' elements' there => ?_
      empty := fun id' nothing => ?_
      owned := fun k words there => ?_
      apart := fun id₁ id₂ e₁ e₂ there₁ there₂ same =>
        h.apart id₁ id₂ e₁ e₂ (other there₁).2 (other there₂).2 same
      issued := fun id' e there => ?_
      distinct := Heap.distinct_release h.distinct handle
      used := ?_
      within := ?_ }
    · have apart : id' ≠ id := by
        rintro rfl
        rw [Function.update_self] at there
        cases there
      rw [Function.update_of_ne apart] at there
      obtain ⟨handle', entry', block'⟩ := h.held id' w' elements' there
      refine ⟨handle', by rwa [get?_replace_of_ne apart], ?_⟩
      rw [Heap.lookup_release, if_neg fun same => apart (h.apart _ _ _ _ entry' entry same)]
      exact block'
    · by_cases same : id' = id
      · rw [same, get?_replace_self inside]
      · rw [Function.update_of_ne same] at nothing
        rw [get?_replace_of_ne same]
        exact h.empty id' nothing
    · rw [Heap.lookup_release] at there
      split at there
      · cases there
      · next left =>
        obtain ⟨id', e, entry', rfl⟩ := h.owned k words there
        have same : id' ≠ id := by
          rintro rfl
          rw [entry] at entry'
          cases entry'
          exact left rfl
        exact ⟨id', e, by rwa [get?_replace_of_ne same], rfl⟩
    · rw [Heap.last_release]
      exact h.issued id' e (other there).2
    · rw [released, capacity_replace]
      omega
    · rw [released]
      have within := h.within
      omega

/-- **A new array fills an empty entry** and leaves the others. -/
theorem fill (h : t.Holds heap f) (w : Width) (elements : List UInt32) (nothing : f id = none)
    (inside : id < t.capacity)
    (room : heap.used + Contents.words (some (w, elements)) ≤ Heap.capacity)
    (few : heap.last.toNat + 1 < 2 ^ 32) :
    (t.replace id (some ⟨Heap.nextHandle heap.last, w, elements.length⟩)).Holds
      (heap.grow (w.block elements)) (Function.update f id (some (w, elements))) := by
  have next := Heap.toNat_nextHandle heap.last few
  -- no entry has the new handle
  have fresh : ∀ {id' e}, t.get? id' = some e → e.handle ≠ Heap.nextHandle heap.last := by
    intro id' e there same
    have old := h.issued id' e there
    rw [same, next] at old
    omega
  have either : ∀ {id' e},
      (t.replace id (some ⟨Heap.nextHandle heap.last, w, elements.length⟩)).get? id' = some e →
      (id' = id ∧ e.handle = Heap.nextHandle heap.last) ∨ t.get? id' = some e := by
    intro id' e there
    by_cases same : id' = id
    · rw [same, get?_replace_self inside] at there
      cases there
      exact .inl ⟨same, rfl⟩
    · rw [get?_replace_of_ne same] at there
      exact .inr there
  have words := f.used_update inside (some (w, elements))
  rw [nothing, Contents.words_none] at words
  have used := h.used
  have grown : (heap.grow (w.block elements)).used =
      heap.used + Contents.words (some (w, elements)) := by
    rw [← Width.length_block]
    rfl
  refine {
    held := fun id' w' elements' there => ?_
    empty := fun id' none => ?_
    owned := fun k words there => ?_
    apart := fun id₁ id₂ e₁ e₂ there₁ there₂ same => ?_
    issued := fun id' e there => ?_
    distinct := Heap.distinct_grow h.distinct _
    used := ?_
    within := grown ▸ room }
  · by_cases same : id' = id
    · subst same
      rw [Function.update_self] at there
      cases there
      exact ⟨_, get?_replace_self inside _, by rw [Heap.lookup_grow, if_pos rfl]⟩
    · rw [Function.update_of_ne same] at there
      obtain ⟨handle', entry', block'⟩ := h.held id' w' elements' there
      refine ⟨handle', by rwa [get?_replace_of_ne same], ?_⟩
      rw [Heap.lookup_grow, if_neg (fresh entry')]
      exact block'
  · have other : id' ≠ id := by
      rintro rfl
      rw [Function.update_self] at none
      cases none
    rw [Function.update_of_ne other] at none
    rw [get?_replace_of_ne other]
    exact h.empty id' none
  · rw [Heap.lookup_grow] at there
    split at there
    · next new => exact ⟨id, _, get?_replace_self inside _, new.symm⟩
    · obtain ⟨id', e, entry', handle⟩ := h.owned k words there
      have other : id' ≠ id := by
        rintro rfl
        rw [h.empty id' nothing] at entry'
        cases entry'
      exact ⟨id', e, by rwa [get?_replace_of_ne other], handle⟩
  · rcases either there₁ with ⟨here₁, new₁⟩ | old₁
    · rcases either there₂ with ⟨here₂, -⟩ | old₂
      · rw [here₁, here₂]
      · exact absurd (same.symm.trans new₁) (fresh old₂)
    · rcases either there₂ with ⟨-, new₂⟩ | old₂
      · exact absurd (same.trans new₂) (fresh old₁)
      · exact h.apart id₁ id₂ e₁ e₂ old₁ old₂ same
  · change e.handle.toNat ≤ (Heap.nextHandle heap.last).toNat
    rcases either there with ⟨-, new⟩ | old
    · exact Nat.le_of_eq (congrArg UInt32.toNat new)
    · have before := h.issued id' e old
      omega
  · rw [grown, capacity_replace]
    omega

end Holds

end ArrayTable

end LineScript
