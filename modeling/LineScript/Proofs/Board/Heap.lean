import LineScript.Board.Heap
/-!
# Blocks of the heap

What each operation does to the block under a handle: putting a block there
and giving one back change no other block, and an allocation puts a block of
zeros under the handle after the last one issued, if there is room. As long
as the count of handles has not started again, that handle is larger than
all before it (`toNat_nextHandle`).
-/

namespace LineScript

namespace Heap

variable {heap : Heap} {h k : Handle} {words words' : List UInt32}

/-! ## Looking a block up -/

/-- Looking through a list of blocks. -/
theorem lookup_cons (b : Handle × List UInt32) (rest : List (Handle × List UInt32)) (k : Handle) :
    (b :: rest).lookup k = if k = b.1 then some b.2 else rest.lookup k := by
  rw [List.lookup_cons]
  by_cases here : k = b.1
  · simp [here]
  · simp [here, beq_eq_false_iff_ne.2 here]

/-- Taking a handle out of a list of blocks. -/
theorem lookup_filter_ne (blocks : List (Handle × List UInt32)) (h k : Handle) :
    (blocks.filter (·.1 ≠ h)).lookup k = if k = h then none else blocks.lookup k := by
  induction blocks with
  | nil => simp
  | cons b rest ih =>
    by_cases out : b.1 = h
    · rw [List.filter_cons_of_neg (by simp [out]), ih, lookup_cons, out]
      split <;> rfl
    · rw [List.filter_cons_of_pos (by simp [out]), lookup_cons, lookup_cons, ih]
      by_cases here : k = b.1
      · rw [if_pos here, if_pos here, if_neg (here ▸ out)]
      · rw [if_neg here, if_neg here]

theorem lookup_set (heap : Heap) (h k : Handle) (words : List UInt32) :
    (heap.set h words).blocks.lookup k = if k = h then some words else heap.blocks.lookup k := by
  rw [set, lookup_cons, lookup_filter_ne]
  split <;> rfl

theorem release_of_lookup (there : heap.blocks.lookup h = some words) :
    heap.release h = { heap with
      blocks := heap.blocks.filter (·.1 ≠ h), used := heap.used - words.length } := by
  rw [release, there]

/-- **A block that is given back is gone**, and no other. -/
theorem lookup_release (heap : Heap) (h k : Handle) :
    (heap.release h).blocks.lookup k = if k = h then none else heap.blocks.lookup k := by
  cases there : heap.blocks.lookup h with
  | some words => rw [release_of_lookup there, lookup_filter_ne]
  | none =>
    have same : heap.release h = heap := by rw [release, there]
    rw [same]
    split
    · next here => rw [here, there]
    · rfl

theorem last_release (heap : Heap) (h : Handle) : (heap.release h).last = heap.last := by
  unfold release
  split <;> rfl

/-! ## Distinct handles -/

/-- No handle has two blocks. -/
def Distinct (heap : Heap) : Prop := (heap.blocks.map Prod.fst).Nodup

theorem distinct_set (distinct : heap.Distinct) (h : Handle) (words : List UInt32) :
    (heap.set h words).Distinct := by
  have fewer : (heap.blocks.filter (·.1 ≠ h)).Sublist heap.blocks := List.filter_sublist
  refine List.nodup_cons.2 ⟨fun again => ?_, List.Nodup.sublist (fewer.map _) distinct⟩
  obtain ⟨b, mem, same⟩ := List.mem_map.1 again
  exact of_decide_eq_true (List.mem_filter.1 mem).2 same

theorem distinct_release (distinct : heap.Distinct) (h : Handle) : (heap.release h).Distinct := by
  unfold release
  split
  · exact List.Nodup.sublist (List.filter_sublist.map _) distinct
  · exact distinct

/-- The handles in use are those with a block. -/
theorem mem_handles_iff : h ∈ heap.blocks.map Prod.fst ↔ heap.contains h = true := by
  unfold contains
  generalize heap.blocks = blocks
  induction blocks with
  | nil => simp
  | cons b rest ih =>
    rw [List.map_cons, List.mem_cons, ih, lookup_cons]
    by_cases here : h = b.1
    · simp [here]
    · simp [here]

/-! ## Allocation -/

/-- **Handles grow** until the count of them starts again. -/
theorem toNat_nextHandle (h : Handle) (few : h.toNat + 1 < 2 ^ 32) :
    (nextHandle h).toNat = h.toNat + 1 := by
  have sum : (h + 1).toNat = h.toNat + 1 := by
    rw [UInt32.toNat_add, UInt32.toNat_one]
    exact Nat.mod_eq_of_lt few
  have nonzero : h + 1 ≠ 0 := by
    intro zero
    rw [zero, UInt32.toNat_zero] at sum
    omega
  rw [nextHandle, if_neg nonzero, sum]

/-- The heap with one more block, under the next handle. -/
def grow (heap : Heap) (words : List UInt32) : Heap :=
  { heap.set (nextHandle heap.last) words with
    last := nextHandle heap.last
    used := heap.used + words.length }

theorem lookup_grow (heap : Heap) (words : List UInt32) (k : Handle) :
    (heap.grow words).blocks.lookup k =
      if k = nextHandle heap.last then some words else heap.blocks.lookup k :=
  lookup_set heap _ k words

theorem distinct_grow (distinct : heap.Distinct) (words : List UInt32) :
    (heap.grow words).Distinct := distinct_set distinct _ words

/-- **An allocation** fails when there is no room, and else adds a block of
zeros. -/
theorem alloc_eq (heap : Heap) (n : Nat) :
    heap.alloc n = if capacity < heap.used + n then .error .heapFull else
      .ok (nextHandle heap.last, heap.grow (List.replicate n 0)) := by
  rw [alloc, grow, List.length_replicate]

/-! ## Reading and writing -/

/-- Words that fill up a new block are its words. -/
theorem store_grow (heap : Heap) (words words' : List UInt32) (fits : words'.length ≤ words.length)
    (small : words.length < 2 ^ 64) :
    (heap.grow words).store (nextHandle heap.last) 0 words' =
      .ok (heap.grow (words' ++ words.drop words'.length)) := by
  have there := lookup_grow heap words (nextHandle heap.last)
  rw [if_pos rfl] at there
  have span : checkSpan words.length 0 words'.length = .ok () := by
    rw [checkSpan, if_neg (by omega), if_neg (by omega)]
  have filled : (words' ++ words.drop words'.length).length = words.length := by
    rw [List.length_append, List.length_drop]
    omega
  rw [store, block, there]
  simp only [bind, Except.bind, span, List.take_zero, List.nil_append, Nat.zero_add, pure,
    Except.pure]
  -- the first block of this handle is replaced
  simp only [grow, set, filled, List.filter_cons, ne_eq, not_true_eq_false, decide_false,
    Bool.false_eq_true, if_false, List.filter_filter, Bool.and_self]

/-- The first words of a block. -/
theorem load_zero {n : Nat} (there : heap.blocks.lookup h = some words)
    (fits : n ≤ words.length) (small : n < 2 ^ 64) :
    heap.load h 0 n = .ok (words.take n) := by
  have span : checkSpan words.length 0 n = .ok () := by
    rw [checkSpan, if_neg (by omega), if_neg (by omega)]
  rw [load, block, there]
  simp only [bind, Except.bind, span, List.drop_zero]
  rfl

end Heap

end LineScript
