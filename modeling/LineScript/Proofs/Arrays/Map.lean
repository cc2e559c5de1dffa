import LineScript.Proofs.Arrays.Ownership
/-!
# Arrays as a map

A table of arrays with a heap of its own is a map from entries to elements of
some width, whatever is done to it: `ArrayCall.effect` says what each call
does to the map, and `Holds.apply` that the table and the heap follow it. So
the words in use are those of the arrays in the map, a new array is refused
exactly when they do not leave room for it, and no block is lost.

All of this is so until the count of handles starts again: it holds for fewer
than 2 ^ 32 allocations.
-/

namespace LineScript

namespace Contents

/-- The heap words that a new array and those in the other entries take. -/
def needed (f : Contents) (n id : Nat) (a : Width × List UInt32) : Nat :=
  words (some a) + used (Function.update f id none) n

/-- A map of `n` entries with a new array in place of an old one, which is
gone also when there is no room for the new one beside the others. -/
def make (f : Contents) (n id : Nat) (a : Width × List UInt32) : Contents :=
  Function.update f id (if Heap.capacity < f.needed n id a then none else some a)

end Contents

/-! ## Calls -/

/-- Something that is done to a table of arrays. -/
inductive ArrayCall where
  | create (id : Nat) (elements : List UInt32) (width : Nat)
  | free (id : Nat)
  | freeAll

namespace ArrayCall

/-- The table and the heap after a call. -/
def apply (s : ArrayTable × Heap) : ArrayCall → ArrayTable × Heap
  | create id elements width => (s.1.create s.2 id elements width).2
  | free id => (s.1.free s.2 id).2
  | freeAll => s.1.freeAll s.2

/-- How many blocks a call takes into use: one, if it makes an array. -/
def allocations (s : ArrayTable × Heap) : ArrayCall → Nat
  | create id elements width => if (s.1.create s.2 id elements width).1 = none then 1 else 0
  | free _ | freeAll => 0

/-- What a call makes of a map with `n` entries. -/
def effect (n : Nat) (f : Contents) : ArrayCall → Contents
  | create id elements width =>
    match Width.ofBytes? width with
    | some w => if n ≤ id then f else f.make n id (w, elements)
    | none => f
  | free id => Function.update f id none
  | freeAll => fun _ => none

/-- Whether a call is about an entry. -/
def Concerns (id : Nat) : ArrayCall → Prop
  | create id' _ _ | free id' => id' = id
  | freeAll => True

/-- The table and the heap after some calls. -/
def applyAll (calls : List ArrayCall) (s : ArrayTable × Heap) : ArrayTable × Heap :=
  calls.foldl apply s

/-- How many blocks some calls take into use. -/
def allocationsOf : List ArrayCall → ArrayTable × Heap → Nat
  | [], _ => 0
  | call :: rest, s => call.allocations s + allocationsOf rest (call.apply s)

/-- The map after some calls, which is empty at first. -/
def contents (n : Nat) (calls : List ArrayCall) : Contents := calls.foldl (effect n) fun _ => none

/-- A call changes no entry but the one it is about. -/
theorem effect_of_not_concerns {call : ArrayCall} {id : Nat} (n : Nat) (f : Contents)
    (h : ¬ call.Concerns id) : call.effect n f id = f id := by
  cases call with
  | create id' elements width =>
    rw [effect]
    cases Width.ofBytes? width with
    | none => rfl
    | some w =>
      dsimp only
      split
      · rfl
      · exact Function.update_of_ne (Ne.symm h) _ _
  | free id' => exact Function.update_of_ne (Ne.symm h) _ _
  | freeAll => exact absurd trivial h

end ArrayCall

namespace ArrayTable

variable {t : ArrayTable} {heap : Heap} {f : Contents} {id n : Nat} {w : Width}
  {elements : List UInt32}

/-! ## Making an array -/

/-- An array that there is no entry for, or of elements of no width, changes
nothing. -/
theorem create_of_bad (t : ArrayTable) (heap : Heap) (elements : List UInt32)
    (h : t.capacity ≤ id ∨ Width.ofBytes? n = none) :
    (t.create heap id elements n).1 ≠ none ∧ (t.create heap id elements n).2 = (t, heap) := by
  unfold create
  split
  · exact ⟨Option.some_ne_none _, rfl⟩
  · next inside =>
    rw [h.resolve_left inside]
    exact ⟨Option.some_ne_none _, rfl⟩

/-- **Making an array** empties its entry, and fills it if there is room. -/
theorem create_eq (t : ArrayTable) (heap : Heap) (elements : List UInt32) (inside : id < t.capacity)
    (width : Width.ofBytes? n = some w) :
    t.create heap id elements n =
      if Heap.capacity < (t.free heap id).2.2.used + Contents.words (some (w, elements)) then
        (some .heapFull, (t.free heap id).2)
      else
        (none, (t.free heap id).2.1.replace id
          (some ⟨Heap.nextHandle heap.last, w, elements.length⟩),
          (t.free heap id).2.2.grow (w.block elements)) := by
  rw [create, if_neg (by omega), width]
  dsimp only
  rw [allocate_eq, last_free]
  by_cases full : Heap.capacity < (t.free heap id).2.2.used + Contents.words (some (w, elements))
  · rw [if_pos full, if_pos full]
  · rw [if_neg full, if_neg full]
    rfl

namespace Holds

/-- **There is room** for a new array if there is room for it beside the others. -/
theorem used_free_add (h : t.Holds heap f) (id : Nat) (w : Width) (elements : List UInt32) :
    (t.free heap id).2.2.used + Contents.words (some (w, elements)) =
      f.needed t.capacity id (w, elements) := by
  rw [(h.free id).used, capacity_free, Contents.needed, Nat.add_comm]

/-- Making an array fails when there is no room for it, and only then. -/
theorem create_fault (h : t.Holds heap f) (elements : List UInt32) (inside : id < t.capacity)
    (width : Width.ofBytes? n = some w) :
    (t.create heap id elements n).1 =
      if Heap.capacity < f.needed t.capacity id (w, elements) then some .heapFull else none := by
  rw [create_eq t heap elements inside width, h.used_free_add]
  split <;> rfl

/-- **Making an array** that there is an entry for. -/
theorem create (h : t.Holds heap f) (elements : List UInt32) (inside : id < t.capacity)
    (width : Width.ofBytes? n = some w)
    (few : (t.create heap id elements n).1 = none → heap.last.toNat + 1 < 2 ^ 32) :
    (t.create heap id elements n).2.1.Holds (t.create heap id elements n).2.2
      (f.make t.capacity id (w, elements)) := by
  have emptied := h.free id
  have full := h.create_fault elements inside width
  rw [create_eq t heap elements inside width, h.used_free_add] at few ⊢
  unfold Contents.make
  split
  · exact emptied
  · next room =>
    rw [if_neg room] at few
    have filled := emptied.fill w elements (Function.update_self ..)
      (by rwa [capacity_free]) (by rw [h.used_free_add]; omega)
      (by rw [last_free]; exact few rfl)
    rwa [last_free, Function.update_idem] at filled

/-- **An array there is no room for** leaves its entry empty, and the others as they were. -/
theorem refused (h : t.Holds heap f) (inside : id < t.capacity) (width : Width.ofBytes? n = some w)
    (full : Heap.capacity < f.needed t.capacity id (w, elements)) :
    (t.create heap id elements n).2 = (t.free heap id).2 ∧
      (t.create heap id elements n).2.1.Holds (t.create heap id elements n).2.2
        (Function.update f id none) := by
  have freed : (t.create heap id elements n).2 = (t.free heap id).2 := by
    rw [create_eq t heap elements inside width, h.used_free_add, if_pos full]
  rw [freed]
  exact ⟨rfl, h.free id⟩

/-- Freeing some entries empties them. -/
theorem foldl_free (h : t.Holds heap f) (ids : List Nat) :
    let s := ids.foldl (fun (s : ArrayTable × Heap) id => (s.1.free s.2 id).2) (t, heap)
    s.1.Holds s.2 fun id => if id ∈ ids then none else f id := by
  induction ids generalizing t heap f with
  | nil => simpa using h
  | cons id rest ih =>
    have later := ih (h.free id)
    have same : (fun id' => if id' ∈ rest then none else Function.update f id none id') =
        fun id' => if id' ∈ id :: rest then none else f id' := by
      funext id'
      by_cases here : id' = id
      · simp [here]
      · simp [here]
    rw [same] at later
    exact later

/-- **Freeing all entries leaves nothing.** -/
theorem freeAll (h : t.Holds heap f) :
    (t.freeAll heap).1.Holds (t.freeAll heap).2 fun _ => none := by
  have freed := h.foldl_free (List.range t.capacity)
  have nothing : (fun id => if id ∈ List.range t.capacity then none else f id) = fun _ => none := by
    funext id
    split
    · rfl
    · next outside =>
      rw [List.mem_range] at outside
      cases array : f id with
      | none => rfl
      | some a => exact absurd (h.lt_of_some (show f id = some (a.1, a.2) from array)) outside
  rw [nothing] at freed
  exact freed

/-! ## Reading -/

/-- **An array reads as its elements**, each cut to the width, and an empty
entry does not read. -/
theorem elements_eq (h : t.Holds heap f) (id : Nat) :
    t.elements heap id = match f id with
      | some (w, elements) => .ok (elements.map w.cut)
      | none => .error .badArray := by
  cases array : f id with
  | none => rw [elements, h.empty id array]
  | some a =>
    obtain ⟨w, elements⟩ := a
    obtain ⟨handle, entry, block⟩ := h.held id w elements array
    have enough := w.wordsFor_le_length_block elements
    have small : w.wordsFor elements.length < 2 ^ 64 := by
      have words := f.words_le_used (h.lt_of_some array)
      have within := h.within
      have capacity : Heap.capacity < 2 ^ 64 := by decide
      rw [array, ← Width.length_block, ← h.used] at words
      omega
    have load := Heap.load_zero block enough small
    rw [w.take_block] at load
    rw [ArrayTable.elements, entry]
    simp only [Heap.count, Heap.block, block, Except.map, bind, Except.bind, load,
      if_neg (show ¬ (w.block elements).length < w.wordsFor elements.length by omega)]
    exact congrArg Except.ok (w.unpack_pack elements)

/-! ## Blocks -/

/-- The blocks are those of the entries. -/
theorem contains_iff (h : t.Holds heap f) (handle : Handle) :
    heap.contains handle = true ↔ ∃ id e, t.get? id = some e ∧ e.handle = handle := by
  rw [Heap.contains, Option.isSome_iff_exists]
  constructor
  · rintro ⟨words, there⟩
    exact h.owned handle words there
  · rintro ⟨id, e, entry, rfl⟩
    obtain ⟨elements, -, -, block⟩ := h.lookup entry
    exact ⟨_, block⟩

/-- **There are as many blocks as arrays.** -/
theorem live_eq (h : t.Holds heap f) : heap.live = t.inUse := by
  -- the handles of the entries, by increasing entry
  let handle : Nat → Option Handle := fun id => (t.get? id).map ArrayEntry.handle
  have entries : t.entries.toList = (List.range t.capacity).map t.get? := by
    refine List.ext_getElem (by simp [capacity]) fun id small small' => ?_
    rw [Array.length_toList] at small
    rw [Array.getElem_toList, List.getElem_map, List.getElem_range, get?,
      Array.getD_eq_getD_getElem?, Array.getElem?_eq_getElem small]
    rfl
  have owners : ((List.range t.capacity).filterMap handle).Nodup := by
    refine List.Pairwise.filterMap handle (fun id id' other k there k' there' same => other ?_)
      List.nodup_range
    obtain ⟨e, entry, rfl⟩ := Option.map_eq_some_iff.1 there
    obtain ⟨e', entry', rfl⟩ := Option.map_eq_some_iff.1 there'
    exact h.apart id id' e e' entry entry' same
  have same : (heap.blocks.map Prod.fst).Perm ((List.range t.capacity).filterMap handle) := by
    refine (List.perm_ext_iff_of_nodup h.distinct owners).2 fun k => ?_
    rw [Heap.mem_handles_iff, h.contains_iff, List.mem_filterMap]
    constructor
    · rintro ⟨id, e, entry, rfl⟩
      exact ⟨id, List.mem_range.2 (lt_of_get? entry), by simp only [handle, entry, Option.map_some]⟩
    · rintro ⟨id, -, there⟩
      obtain ⟨e, entry, rfl⟩ := Option.map_eq_some_iff.1 there
      exact ⟨id, e, entry, rfl⟩
  have count := same.length_eq
  rw [List.length_map, List.length_filterMap_eq_countP] at count
  rw [Heap.live, count, inUse, ← Array.countP_toList, entries, List.countP_map]
  refine List.countP_congr fun id _ => ?_
  simp only [handle, Function.comp_apply, Option.isSome_map]

/-- **Where there is no array, nothing is left of any.** -/
theorem eq_new (h : t.Holds heap fun _ => none) :
    t = new t.capacity ∧ heap.live = 0 ∧ heap.used = 0 := by
  have blank : t = new t.capacity := by
    obtain ⟨entries⟩ := t
    refine congrArg ArrayTable.mk (Array.ext (by simp [capacity]) fun id inside inside' => ?_)
    have empty := h.empty id rfl
    rw [get?, Array.getD_eq_getD_getElem?, Array.getElem?_eq_getElem inside] at empty
    exact (show entries[id] = none from empty).trans (Array.getElem_replicate _).symm
  refine ⟨blank, ?_, h.used.trans (Contents.used_none _)⟩
  rw [h.live_eq, blank]
  simp [inUse, new]

/-- A new table holds no array. -/
theorem eq_none (h : (new n).Holds heap f) : f = fun _ => none := by
  funext id
  cases array : f id with
  | none => rfl
  | some a =>
    obtain ⟨handle, entry, -⟩ := h.held id a.1 a.2 array
    rw [(holds_new n).empty id rfl] at entry
    cases entry

/-! ## All calls -/

/-- **Each call changes the map as it should.** -/
theorem apply (h : t.Holds heap f) (call : ArrayCall)
    (few : heap.last.toNat + call.allocations (t, heap) < 2 ^ 32) :
    (call.apply (t, heap)).1.Holds (call.apply (t, heap)).2 (call.effect t.capacity f) := by
  cases call with
  | create id elements n =>
    rw [ArrayCall.effect]
    by_cases bad : t.capacity ≤ id ∨ Width.ofBytes? n = none
    · rw [ArrayCall.apply, (create_of_bad t heap elements bad).2]
      cases width : Width.ofBytes? n with
      | none => exact h
      | some w =>
        dsimp only
        rw [if_pos (bad.resolve_right (by rw [width]; exact Option.some_ne_none w))]
        exact h
    · obtain ⟨inside, good⟩ := not_or.1 bad
      obtain ⟨w, width⟩ := Option.ne_none_iff_exists'.1 good
      rw [width]
      dsimp only
      rw [if_neg inside]
      refine h.create elements (by omega) width fun made => ?_
      rw [ArrayCall.allocations, if_pos made] at few
      exact few
  | free id => exact h.free id
  | freeAll => exact h.freeAll

end Holds

/-- Freeing some entries takes no block into use. -/
theorem foldl_free_same (ids : List Nat) (s : ArrayTable × Heap) :
    let s' := ids.foldl (fun (s : ArrayTable × Heap) id => (s.1.free s.2 id).2) s
    s'.1.capacity = s.1.capacity ∧ s'.2.last = s.2.last := by
  induction ids generalizing s with
  | nil => exact ⟨rfl, rfl⟩
  | cons id rest ih =>
    obtain ⟨capacity, last⟩ := ih (s.1.free s.2 id).2
    exact ⟨capacity.trans (capacity_free s.1 s.2 id), last.trans (last_free s.1 s.2 id)⟩

end ArrayTable

namespace ArrayCall

open ArrayTable

/-- The number of entries is fixed. -/
theorem capacity_apply (call : ArrayCall) (s : ArrayTable × Heap) :
    (call.apply s).1.capacity = s.1.capacity := by
  cases call with
  | create id elements n =>
    rw [apply]
    by_cases bad : s.1.capacity ≤ id ∨ Width.ofBytes? n = none
    · rw [(create_of_bad s.1 s.2 elements bad).2]
    · obtain ⟨inside, good⟩ := not_or.1 bad
      obtain ⟨w, width⟩ := Option.ne_none_iff_exists'.1 good
      rw [create_eq s.1 s.2 elements (by omega) width]
      split
      · exact capacity_free _ _ _
      · exact (capacity_replace _ _ _).trans (capacity_free _ _ _)
  | free id => exact capacity_free _ _ _
  | freeAll => exact (foldl_free_same _ s).1

/-- **Handles are counted**: the last one issued is the number of allocations,
until the count starts again. -/
theorem toNat_last_apply (call : ArrayCall) (s : ArrayTable × Heap)
    (few : s.2.last.toNat + call.allocations s < 2 ^ 32) :
    (call.apply s).2.last.toNat = s.2.last.toNat + call.allocations s := by
  cases call with
  | create id elements n =>
    rw [apply, allocations] at *
    by_cases bad : s.1.capacity ≤ id ∨ Width.ofBytes? n = none
    · obtain ⟨fault, same⟩ := create_of_bad s.1 s.2 elements bad
      rw [same, if_neg fault]
      rfl
    · obtain ⟨inside, good⟩ := not_or.1 bad
      obtain ⟨w, width⟩ := Option.ne_none_iff_exists'.1 good
      rw [create_eq s.1 s.2 elements (by omega) width] at few ⊢
      split
      · exact congrArg UInt32.toNat (last_free _ _ _)
      · next room =>
        rw [if_neg room, if_pos rfl] at few
        rw [if_pos rfl, ← Heap.toNat_nextHandle _ few]
        change (Heap.nextHandle (s.1.free s.2 id).2.2.last).toNat = _
        rw [last_free]
  | free id => exact congrArg UInt32.toNat (last_free _ _ _)
  | freeAll => exact congrArg UInt32.toNat (foldl_free_same _ s).2

theorem applyAll_append (calls later : List ArrayCall) (s : ArrayTable × Heap) :
    applyAll (calls ++ later) s = applyAll later (applyAll calls s) := List.foldl_append

theorem allocationsOf_append (calls later : List ArrayCall) (s : ArrayTable × Heap) :
    allocationsOf (calls ++ later) s = allocationsOf calls s + allocationsOf later (applyAll calls s) := by
  induction calls generalizing s with
  | nil => exact (Nat.zero_add _).symm
  | cons call rest ih =>
    rw [List.cons_append, allocationsOf, ih, allocationsOf, Nat.add_assoc]
    rfl

/-- Handles are counted over several calls. -/
theorem toNat_last_applyAll (calls : List ArrayCall) (s : ArrayTable × Heap)
    (few : s.2.last.toNat + allocationsOf calls s < 2 ^ 32) :
    (applyAll calls s).2.last.toNat = s.2.last.toNat + allocationsOf calls s := by
  induction calls generalizing s with
  | nil => rfl
  | cons call rest ih =>
    rw [allocationsOf] at few ⊢
    have last := call.toNat_last_apply s (by omega)
    rw [← Nat.add_assoc, ← last] at few ⊢
    exact ih (call.apply s) few

/-- **Calls change the map as they should.** -/
theorem holds_applyAll {t : ArrayTable} {heap : Heap} {f : Contents} (h : t.Holds heap f)
    (calls : List ArrayCall) (few : heap.last.toNat + allocationsOf calls (t, heap) < 2 ^ 32) :
    (applyAll calls (t, heap)).1.Holds (applyAll calls (t, heap)).2
      (calls.foldl (effect t.capacity) f) ∧
    (applyAll calls (t, heap)).1.capacity = t.capacity := by
  induction calls generalizing t heap f with
  | nil => exact ⟨h, rfl⟩
  | cons call rest ih =>
    rw [allocationsOf] at few
    have now : heap.last.toNat + call.allocations (t, heap) < 2 ^ 32 :=
      Nat.lt_of_le_of_lt (by omega) few
    have last := call.toNat_last_apply (t, heap) now
    have size := call.capacity_apply (t, heap)
    have kept := h.apply call now
    change (applyAll rest (call.apply (t, heap))).1.Holds (applyAll rest (call.apply (t, heap))).2
      (rest.foldl (effect t.capacity) (call.effect t.capacity f)) ∧
      (applyAll rest (call.apply (t, heap))).1.capacity = t.capacity
    generalize call.apply (t, heap) = s at few last size kept
    obtain ⟨t', heap'⟩ := s
    dsimp only at few last size kept
    rw [← size] at kept ⊢
    exact ih kept (by omega)

end ArrayCall

namespace ArrayTable

variable {n : Nat} {calls : List ArrayCall} {t : ArrayTable} {heap : Heap}

/-- **A table with a heap of its own is a map**, whatever is done to it in
fewer than 2 ^ 32 allocations. Its entries read as the elements in the map,
and a call leaves the entries it is not about. The blocks of the heap are
those of the arrays, and their words are those of the map. What cannot be an
array changes nothing; any other is refused exactly when there is no room for
it beside the arrays of the other entries, which then are as they were. -/
theorem arrays_are_map (few : ArrayCall.allocationsOf calls (new n, {}) < 2 ^ 32)
    (h : ArrayCall.applyAll calls (new n, {}) = (t, heap)) :
    (∀ id, t.elements heap id = match ArrayCall.contents n calls id with
      | some (w, elements) => .ok (elements.map w.cut)
      | none => .error .badArray) ∧
    (∀ call id, ¬ call.Concerns id →
      ArrayCall.allocationsOf (calls ++ [call]) (new n, {}) < 2 ^ 32 →
      (call.apply (t, heap)).1.elements (call.apply (t, heap)).2 id = t.elements heap id) ∧
    ((∀ k, heap.contains k = true ↔ ∃ id e, t.get? id = some e ∧ e.handle = k) ∧
      (∀ id id' e e', t.get? id = some e → t.get? id' = some e' → e.handle = e'.handle → id = id') ∧
      heap.live = t.inUse) ∧
    (heap.used = (ArrayCall.contents n calls).used n ∧ heap.used ≤ 16384) ∧
    (∀ id elements width, n ≤ id ∨ Width.ofBytes? width = none →
      (t.create heap id elements width).1 ≠ none ∧
        (t.create heap id elements width).2 = (t, heap)) ∧
    (∀ id elements width w fault t' heap', id < n → Width.ofBytes? width = some w →
      t.create heap id elements width = (fault, t', heap') →
      fault = (if 16384 < (ArrayCall.contents n calls).needed n id (w, elements) then
        some .heapFull else none) ∧
      (fault ≠ none → t'.get? id = none ∧
        (∀ id', id' ≠ id → t'.get? id' = t.get? id' ∧
          t'.elements heap' id' = t.elements heap id') ∧
        (∀ k, heap'.contains k = true ↔ ∃ id e, t'.get? id = some e ∧ e.handle = k) ∧
        heap'.live = t'.inUse)) := by
  have capacity : (new n).capacity = n := Array.size_replicate
  have run : ∀ calls, ArrayCall.allocationsOf calls (new n, {}) < 2 ^ 32 →
      let s := ArrayCall.applyAll calls (new n, {})
      s.1.Holds s.2 (ArrayCall.contents n calls) ∧ s.1.capacity = n := by
    intro calls few
    have none : ({} : Heap).last.toNat = 0 := rfl
    have run := ArrayCall.holds_applyAll (holds_new n) calls (by rw [none]; omega)
    rwa [capacity] at run
  obtain ⟨holds, size⟩ := run calls few
  rw [h] at holds size
  dsimp only at holds size
  refine ⟨holds.elements_eq, fun call id other few' => ?_,
    ⟨holds.contains_iff, holds.apart, holds.live_eq⟩, ⟨size ▸ holds.used, holds.within⟩,
    fun id elements width bad => create_of_bad t heap elements (size ▸ bad),
    fun id elements width w fault t' heap' inside good made => ?_⟩
  · obtain ⟨after, -⟩ := run (calls ++ [call]) few'
    have last : ArrayCall.applyAll (calls ++ [call]) (new n, {}) = call.apply (t, heap) := by
      rw [← h]
      exact List.foldl_append
    have same : ArrayCall.contents n (calls ++ [call]) id = ArrayCall.contents n calls id := by
      rw [← call.effect_of_not_concerns n (ArrayCall.contents n calls) other]
      exact congrFun List.foldl_append id
    rw [last] at after
    rw [after.elements_eq, holds.elements_eq, same]
  · have refused := holds.create_fault elements (size ▸ inside) good
    rw [made, size] at refused
    refine ⟨refused, fun faulty => ?_⟩
    have full : Heap.capacity < (ArrayCall.contents n calls).needed n id (w, elements) := by
      by_contra room
      rw [if_neg room] at refused
      exact faulty refused
    obtain ⟨freed, after⟩ := holds.refused (size ▸ inside) good (by rwa [size])
    rw [made] at freed after
    refine ⟨after.empty id (Function.update_self ..), fun id' other => ⟨?_, ?_⟩,
      after.contains_iff, after.live_eq⟩
    · rw [show t' = (t.free heap id).2.1 from congrArg Prod.fst freed, get?_free_of_ne other]
    · rw [after.elements_eq, holds.elements_eq, Function.update_of_ne other]

/-- It holds of a table where one array was replaced and another cut to its
width, and of arrays that are too large for it. -/
theorem arrays_are_map_replaced :
    let calls := [.create 0 [1, 2, 3, 4, 5] 1, .create 1 [0x12345, 6, 7] 2, .create 0 [8] 4, .free 7]
    ∃ t heap, ArrayCall.allocationsOf calls (new 2, {}) < 2 ^ 32 ∧
      ArrayCall.applyAll calls (new 2, {}) = (t, heap) ∧
      t.elements heap 1 = .ok [0x2345, 6, 7] ∧ heap.used = 3 ∧
      (t.create heap 1 [] 3).2 = (t, heap) ∧
      ∀ elements, elements.length = 65537 →
        (t.create heap 1 elements 1).1 = some .heapFull := by
  intro calls
  have few : ArrayCall.allocationsOf calls (new 2, {}) < 2 ^ 32 := by decide +kernel
  obtain ⟨reads, -, -, ⟨used, -⟩, bad, good⟩ := arrays_are_map few (Prod.eta _).symm
  have held : ArrayCall.contents 2 calls 1 = some (.half, [0x12345, 6, 7]) := by decide +kernel
  have words : (ArrayCall.contents 2 calls).used 2 = 3 := by decide +kernel
  have read := reads 1
  rw [held] at read
  refine ⟨_, _, few, (Prod.eta _).symm, read, used.trans words, (bad 1 [] 3 (.inr rfl)).2,
    fun elements size => ?_⟩
  have large : 16384 < (ArrayCall.contents 2 calls).needed 2 1 (.byte, elements) := by
    rw [Contents.needed, Contents.words, size, Width.bytes]
    omega
  obtain ⟨refused, -⟩ := good 1 elements 1 .byte _ _ _ (by decide) rfl rfl
  rwa [if_pos large] at refused

end ArrayTable

end LineScript
