import LineScript.Proofs.Board.Heap
import Mathlib.Algebra.GroupWithZero.Nat
import Mathlib.Data.List.Induction
/-!
# Handles that come around again

Handles are numbered from 1 in the order of the allocations, and after
`2 ^ 32 - 1` of them the numbers start again (`Heap.toNat_nextHandle_uses`). No
allocation looks whether its handle is still in use. A block that is kept for a
whole round of the numbers loses its place to a new block, and its words stay
counted as used for good (`Heap.Accounts.uses`). Which blocks are in use is settled
by what was done to the heap (`Heap.contains_uses_iff`), so
`Heap.handles_and_use` says exactly when an allocation answers with a handle in
use, and by how many words the use is overstated.
-/

namespace LineScript

namespace Heap

variable {heap : Heap} {h k : Handle} {words n : Nat}

/-! ## What is done to a heap -/

/-- Something that is done to a heap. -/
inductive Use where
  | alloc (words : Nat)
  | release (h : Handle)

/-- The heap after a use. An allocation that fails changes nothing. -/
def use (heap : Heap) : Use → Heap
  | .alloc words =>
    match heap.alloc words with
    | .ok (_, heap) => heap
    | .error _ => heap
  | .release h => heap.release h

/-- The heap after several uses. -/
def uses (heap : Heap) (us : List Use) : Heap := us.foldl use heap

/-- Whether an allocation succeeds with a handle. -/
def Issues (heap : Heap) (words : Nat) (h : Handle) : Prop :=
  ∃ heap', heap.alloc words = .ok (h, heap')

/-- How many handles a use issues: one, if it is an allocation that succeeds. -/
def issues (heap : Heap) : Use → Nat
  | .alloc words => if (heap.alloc words).isOk then 1 else 0
  | .release _ => 0

/-- How many handles several uses issue. -/
def issued : Heap → List Use → Nat
  | _, [] => 0
  | heap, u :: us => heap.issues u + issued (heap.use u) us

variable {u : Use} {us us' : List Use}

theorem uses_append (heap : Heap) (us us' : List Use) :
    heap.uses (us ++ us') = (heap.uses us).uses us' := List.foldl_append

theorem issued_append (heap : Heap) (us us' : List Use) :
    heap.issued (us ++ us') = heap.issued us + (heap.uses us).issued us' := by
  induction us generalizing heap with
  | nil => exact (Nat.zero_add _).symm
  | cons u us ih =>
    rw [List.cons_append, issued, issued, ih, Nat.add_assoc]
    rfl

/-- **What an allocation does**: nothing where there is no room, and else it
issues the next handle. -/
theorem use_alloc (heap : Heap) (words : Nat) :
    ((∀ h, ¬ heap.Issues words h) ∧ heap.use (.alloc words) = heap ∧
      heap.issues (.alloc words) = 0) ∨
    ((∀ h, heap.Issues words h ↔ h = nextHandle heap.last) ∧
      heap.use (.alloc words) = heap.grow (List.replicate words 0) ∧
      heap.issues (.alloc words) = 1) := by
  have made := heap.alloc_eq words
  unfold Issues use issues
  dsimp only
  split at made
  · rw [made]
    exact .inl ⟨fun h ⟨heap', told⟩ => (nomatch told), rfl, rfl⟩
  · rw [made]
    refine .inr ⟨fun h => ⟨?_, ?_⟩, rfl, rfl⟩
    · rintro ⟨heap', told⟩
      cases told
      rfl
    · rintro rfl
      exact ⟨_, rfl⟩

/-! ## The numbers of handles -/

/-- After the last handle comes the first. -/
theorem toNat_nextHandle_eq (h : Handle) :
    (nextHandle h).toNat = h.toNat % (2 ^ 32 - 1) + 1 := by
  have small := h.toNat_lt
  rcases Nat.lt_or_ge (h.toNat + 1) (2 ^ 32) with few | full
  · rw [toNat_nextHandle h few, Nat.mod_eq_of_lt (by omega)]
  · have last : h.toNat = 2 ^ 32 - 1 := by omega
    have around : h + 1 = 0 := by
      apply UInt32.toNat_inj.1
      rw [UInt32.toNat_add, last]
      rfl
    rw [nextHandle, if_pos around, last]
    rfl

/-- Zero is no handle. -/
theorem nextHandle_ne_zero (h : Handle) : nextHandle h ≠ 0 := by
  intro zero
  have next := toNat_nextHandle_eq h
  rw [zero, UInt32.toNat_zero] at next
  omega

/-- The last handle moves on with each that is issued, -/
theorem last_use (heap : Heap) (u : Use) :
    (heap.use u).last.toNat % (2 ^ 32 - 1) =
      (heap.last.toNat + heap.issues u) % (2 ^ 32 - 1) := by
  cases u with
  | alloc words =>
    rcases heap.use_alloc words with ⟨-, same, none⟩ | ⟨-, grown, one⟩
    · rw [same, none, Nat.add_zero]
    · have next := toNat_nextHandle_eq heap.last
      rw [grown, one, show (heap.grow (List.replicate words 0)).last = nextHandle heap.last from rfl]
      omega
  | release h => rw [use, last_release, issues, Nat.add_zero]

/-- **so the next one tells how many there were.** -/
theorem toNat_nextHandle_uses (heap : Heap) (us : List Use) :
    (nextHandle (heap.uses us).last).toNat =
      (heap.last.toNat + heap.issued us) % (2 ^ 32 - 1) + 1 := by
  rw [toNat_nextHandle_eq]
  congr 1
  induction us generalizing heap with
  | nil => rfl
  | cons u us ih =>
    have moved := heap.last_use u
    have rest := ih (heap.use u)
    rw [show heap.uses (u :: us) = (heap.use u).uses us from rfl, rest, issued, Nat.add_mod, moved]
    omega

/-! ## Which blocks are in use -/

/-- A use leaves a block in use unless it gives it back, and may take one into use. -/
theorem contains_use_iff : (heap.use u).contains h = true ↔
    (heap.contains h = true ∧ u ≠ .release h) ∨
      ∃ words, u = .alloc words ∧ heap.Issues words h := by
  cases u with
  | alloc words =>
    have other : Use.alloc words ≠ .release h := nofun
    rcases heap.use_alloc words with ⟨none, same, -⟩ | ⟨next, grown, -⟩
    · rw [same]
      constructor
      · intro there
        exact .inl ⟨there, other⟩
      · rintro (⟨there, -⟩ | ⟨_, made, issues⟩)
        · exact there
        · cases made
          exact absurd issues (none h)
    · rw [grown, contains, lookup_grow]
      constructor
      · intro there
        by_cases new : h = nextHandle heap.last
        · exact .inr ⟨words, rfl, (next h).2 new⟩
        · rw [if_neg new] at there
          exact .inl ⟨there, other⟩
      · rintro (⟨there, -⟩ | ⟨_, made, issues⟩)
        · split
          · rfl
          · exact there
        · cases made
          rw [if_pos ((next h).1 issues)]
          rfl
  | release k =>
    rw [use, contains, lookup_release]
    constructor
    · intro there
      by_cases given : h = k
      · rw [if_pos given] at there
        cases there
      · rw [if_neg given] at there
        exact .inl ⟨there, fun same => given (Use.release.inj same).symm⟩
    · rintro (⟨there, kept⟩ | ⟨_, made, -⟩)
      · rw [if_neg fun same => kept (by rw [same])]
        exact there
      · cases made

/-- **A block is in use** if it was at first, or was taken into use since, and
was not given back after that. -/
theorem contains_uses_iff : (heap.uses us).contains h = true ↔
    (heap.contains h = true ∧ .release h ∉ us) ∨
      ∃ earlier words later, us = earlier ++ .alloc words :: later ∧
        (heap.uses earlier).Issues words h ∧ .release h ∉ later := by
  induction us generalizing heap with
  | nil => simp [uses]
  | cons u us ih =>
    rw [show heap.uses (u :: us) = (heap.use u).uses us from rfl, ih, contains_use_iff,
      List.mem_cons, not_or]
    constructor
    · rintro (⟨⟨there, kept⟩ | ⟨words, rfl, issues⟩, rest⟩ |
        ⟨earlier, words, later, rfl, issues, rest⟩)
      · exact .inl ⟨there, Ne.symm kept, rest⟩
      · exact .inr ⟨[], words, us, rfl, issues, rest⟩
      · exact .inr ⟨u :: earlier, words, later, rfl, issues, rest⟩
    · rintro (⟨there, kept, rest⟩ | ⟨earlier, words, later, split, issues, rest⟩)
      · exact .inl ⟨.inl ⟨there, Ne.symm kept⟩, rest⟩
      · cases earlier with
        | nil =>
          obtain ⟨rfl, rfl⟩ := List.cons.inj split
          exact .inl ⟨.inr ⟨words, rfl, issues⟩, rest⟩
        | cons first earlier =>
          obtain ⟨rfl, rfl⟩ := List.cons.inj split
          exact .inr ⟨earlier, words, later, rfl, issues, rest⟩

/-! ## Handles that are issued again -/

theorem Issues.eq_nextHandle (issues : heap.Issues words h) : h = nextHandle heap.last := by
  rcases heap.use_alloc words with ⟨none, -⟩ | ⟨next, -⟩
  · exact absurd issues (none h)
  · exact (next h).1 issues

/-- The handles of some uses are those issued before one of them, its own, and
those issued after it. -/
theorem Issues.issued_eq {earlier later : List Use} (issues : (heap.uses earlier).Issues words h) :
    heap.issued (earlier ++ .alloc words :: later) =
      heap.issued earlier + 1 + (heap.uses (earlier ++ [.alloc words])).issued later := by
  rcases (heap.uses earlier).use_alloc words with ⟨none, -⟩ | ⟨-, -, one⟩
  · exact absurd issues (none h)
  · rw [issued_append, issued, one, uses_append, Nat.add_assoc]
    rfl

/-- **A handle comes around again** when as many were issued since as there
are handles, or a multiple of that. -/
theorem Issues.round {earlier later : List Use} (issues : (uses {} earlier).Issues words h)
    (again : h = nextHandle (uses {} (earlier ++ .alloc words :: later)).last) :
    2 ^ 32 - 1 ∣ (uses {} (earlier ++ [.alloc words])).issued later + 1 := by
  have none : ({} : Heap).last.toNat = 0 := rfl
  have first := toNat_nextHandle_uses {} earlier
  have second := toNat_nextHandle_uses {} (earlier ++ .alloc words :: later)
  rw [issues.issued_eq, ← again, issues.eq_nextHandle, first, none] at second
  omega

/-- **The next handle is in use** if the block it was issued for last was
never given back. -/
theorem contains_nextHandle_iff (us : List Use) :
    (uses {} us).contains (nextHandle (uses {} us).last) = true ↔
      ∃ earlier words later, us = earlier ++ .alloc words :: later ∧
        (uses {} earlier).Issues words (nextHandle (uses {} us).last) ∧
        .release (nextHandle (uses {} us).last) ∉ later ∧
        2 ^ 32 - 1 ∣ (uses {} (earlier ++ [.alloc words])).issued later + 1 := by
  have fresh (h : Handle) : contains {} h = false := rfl
  rw [contains_uses_iff, fresh]
  constructor
  · rintro (⟨never, -⟩ | ⟨earlier, words, later, rfl, issues, kept⟩)
    · cases never
    · exact ⟨earlier, words, later, rfl, issues, kept, issues.round rfl⟩
  · rintro ⟨earlier, words, later, split, issues, kept, -⟩
    exact .inr ⟨earlier, words, later, split, issues, kept⟩

/-- No handle comes around before all of them were issued. -/
theorem contains_nextHandle_of_few (few : issued {} us < 2 ^ 32 - 1) :
    (uses {} us).contains (nextHandle (uses {} us).last) = false := by
  rw [Bool.eq_false_iff, ne_eq, contains_nextHandle_iff]
  rintro ⟨earlier, words, later, rfl, issues, -, round⟩
  have whole := Nat.le_of_dvd (Nat.succ_pos _) round
  rw [issues.issued_eq] at few
  omega

/-! ## Words in use -/

/-- The words of all blocks in use. -/
def liveWords (heap : Heap) : Nat := (heap.blocks.map fun b => b.2.length).sum

/-- How many words the block of a handle has; a handle without a block has none. -/
def wordsAt (heap : Heap) (h : Handle) : Nat := (heap.blocks.lookup h).elim 0 List.length

/-- The words that a use drops without giving them back: those of a block whose
handle is issued again. -/
def dropped (heap : Heap) : Use → Nat
  | .alloc words =>
    if heap.issues (.alloc words) = 1 then heap.wordsAt (nextHandle heap.last) else 0
  | .release _ => 0

/-- The words that several uses drop. -/
def droppedIn : Heap → List Use → Nat
  | _, [] => 0
  | heap, u :: us => heap.dropped u + droppedIn (heap.use u) us

theorem droppedIn_append (heap : Heap) (us us' : List Use) :
    heap.droppedIn (us ++ us') = heap.droppedIn us + (heap.uses us).droppedIn us' := by
  induction us generalizing heap with
  | nil => exact (Nat.zero_add _).symm
  | cons u us ih =>
    rw [List.cons_append, droppedIn, droppedIn, ih, Nat.add_assoc]
    rfl

/-- A handle that is not in use has no words. -/
theorem wordsAt_of_not_contains (unused : heap.contains h = false) : heap.wordsAt h = 0 := by
  rw [contains, Option.isSome_eq_false_iff, Option.isNone_iff_eq_none] at unused
  rw [wordsAt, unused]
  rfl

/-- The words of a block and those of the others are all there are. -/
theorem wordsAt_add (distinct : heap.Distinct) (h : Handle) :
    heap.wordsAt h + ((heap.blocks.filter (·.1 ≠ h)).map fun b => b.2.length).sum =
      heap.liveWords := by
  unfold Distinct at distinct
  unfold wordsAt liveWords
  generalize heap.blocks = blocks at distinct ⊢
  induction blocks with
  | nil => rfl
  | cons b rest ih =>
    obtain ⟨single, others⟩ := List.nodup_cons.1 distinct
    rw [lookup_cons, List.map_cons, List.sum_cons, ← ih others]
    by_cases here : h = b.1
    · have kept : rest.filter (·.1 ≠ h) = rest := by
        refine List.filter_eq_self.2 fun b' mem => decide_eq_true fun same => single ?_
        rw [← here, ← same]
        exact List.mem_map_of_mem mem
      have absent : rest.lookup h = none := by
        have gone := lookup_filter_ne rest h h
        rwa [kept, if_pos rfl] at gone
      rw [if_pos here, List.filter_cons_of_neg (by simp [here]), kept, absent]
      exact congrArg (b.2.length + ·) (Nat.zero_add _).symm
    · rw [if_neg here, List.filter_cons_of_pos (by simp [Ne.symm here]), List.map_cons, List.sum_cons]
      omega

/-- **Words in use and words counted** differ by what was dropped. -/
structure Accounts (heap : Heap) (n : Nat) : Prop where
  distinct : heap.Distinct
  used : heap.used = heap.liveWords + n

theorem Accounts.use (h : heap.Accounts n) (u : Use) :
    (heap.use u).Accounts (n + heap.dropped u) := by
  cases u with
  | alloc words =>
    rcases heap.use_alloc words with ⟨-, same, none⟩ | ⟨-, grown, one⟩
    · rw [same, dropped, none]
      exact h
    · have parts := wordsAt_add h.distinct (nextHandle heap.last)
      rw [grown, dropped, if_pos one]
      refine ⟨distinct_grow h.distinct _, ?_⟩
      have used := h.used
      simp only [grow, set, liveWords, List.map_cons, List.sum_cons]
      omega
  | release k =>
    have parts := wordsAt_add h.distinct k
    have used := h.used
    refine ⟨distinct_release h.distinct k, ?_⟩
    cases there : heap.blocks.lookup k with
    | none =>
      have same : heap.release k = heap := by rw [release, there]
      rw [Heap.use, same]
      exact used
    | some words =>
      rw [wordsAt, there, Option.elim_some] at parts
      rw [Heap.use, release_of_lookup there, dropped]
      dsimp only [liveWords] at parts used ⊢
      omega

/-- **The words counted as used** are those in use and those dropped. -/
theorem Accounts.uses (h : heap.Accounts n) (us : List Use) :
    (heap.uses us).Accounts (n + heap.droppedIn us) := by
  induction us generalizing heap n with
  | nil => exact h
  | cons u us ih =>
    rw [droppedIn, ← Nat.add_assoc]
    exact ih (h.use u)

theorem accounts_uses (us : List Use) : (uses {} us).Accounts (droppedIn {} us) := by
  have none : ({} : Heap).Accounts 0 := ⟨List.nodup_nil, rfl⟩
  have all := none.uses us
  rwa [Nat.zero_add] at all

/-- No words are dropped before the handles were all issued once. -/
theorem droppedIn_of_few (few : issued {} us < 2 ^ 32) : droppedIn {} us = 0 := by
  induction us using List.reverseRecOn with
  | nil => rfl
  | append_singleton us u ih =>
    rw [issued_append, issued, issued] at few
    rw [droppedIn_append, ih (by omega), droppedIn, droppedIn, Nat.add_zero, Nat.zero_add]
    cases u with
    | alloc words =>
      rw [dropped]
      split
      · next one =>
        exact wordsAt_of_not_contains (contains_nextHandle_of_few (by omega))
      · rfl
    | release h => rfl

/-! ## Every use of a heap -/

/-- Whatever was done to a new heap, an allocation that succeeds answers with a
handle other than zero. It is that of a block in use exactly if the block took
its handle a whole number of rounds before, and was never given back. The
words counted as used are those of the blocks in use and those of the blocks
that lost their handles in this way. So as long as the handles do not come
around, each is a new one, and the count is right. -/
theorem handles_and_use (us : List Use) :
    (∀ words h, (uses {} us).Issues words h → h ≠ 0 ∧
      ((uses {} us).contains h = true ↔
        ∃ earlier words' later, us = earlier ++ .alloc words' :: later ∧
          (uses {} earlier).Issues words' h ∧ .release h ∉ later ∧
          2 ^ 32 - 1 ∣ (uses {} (earlier ++ [.alloc words'])).issued later + 1)) ∧
    (uses {} us).used = (uses {} us).liveWords + droppedIn {} us ∧
    (issued {} us < 2 ^ 32 - 1 → ∀ words h, (uses {} us).Issues words h →
      (uses {} us).contains h = false) ∧
    (issued {} us < 2 ^ 32 → (uses {} us).used = (uses {} us).liveWords) := by
  refine ⟨?_, (accounts_uses us).used, ?_, ?_⟩
  · intro words h issues
    obtain rfl := issues.eq_nextHandle
    exact ⟨nextHandle_ne_zero _, contains_nextHandle_iff us⟩
  · intro few words h issues
    obtain rfl := issues.eq_nextHandle
    exact contains_nextHandle_of_few few
  · intro few
    rw [(accounts_uses us).used, droppedIn_of_few few, Nat.add_zero]

/-- A heap with one block given back, and one allocation refused. -/
theorem handles_and_use_few :
    let us := [.alloc 3, .alloc 16384, .alloc 2, .release 1, .release 7]
    (3 : Handle) ≠ 0 ∧ (uses {} us).contains 3 = false ∧
      (uses {} us).used = (uses {} us).liveWords := by
  intro us
  have next : (uses {} us).Issues 4 3 := ⟨(uses {} us).use (.alloc 4), by decide +kernel⟩
  have two : issued {} us = 2 := by decide +kernel
  obtain ⟨nonzero, -, fresh, used⟩ := handles_and_use us
  exact ⟨(nonzero 4 3 next).1, fresh (by rw [two]; decide) 4 3 next, used (by rw [two]; decide)⟩

/-! ## A block kept for too long -/

/-- Blocks that are taken into use and given back, one after another, under the
handles from 2 on. -/
def churn (n : Nat) : List Use :=
  (List.range n).flatMap fun i => [.alloc 1, .release (UInt32.ofNat (i + 2))]

/-- A block that is given back at once leaves nothing behind but the count. -/
theorem uses_alloc_release {last : Handle} (used : Nat) (kept : List UInt32)
    (next : nextHandle last = h) (other : k ≠ h) (room : used + 1 ≤ capacity) :
    uses { blocks := [(k, kept)], last, used } [.alloc 1, .release h] =
      { blocks := [(k, kept)], last := h, used } := by
  have fits : ¬ capacity < used + 1 := Nat.not_lt.2 room
  simp [uses, use, alloc, fits, next, set, release, other]

/-- So do any number of them. -/
theorem uses_churn (few : n + 1 < 2 ^ 32) :
    uses {} (.alloc 5 :: churn n) =
      { blocks := [(1, [0, 0, 0, 0, 0])], last := UInt32.ofNat (n + 1), used := 5 } := by
  induction n with
  | zero => rfl
  | succ n ih =>
    have number (i : Nat) (less : i < 2 ^ 32) : (UInt32.ofNat i).toNat = i :=
      UInt32.toNat_ofNat_of_lt' less
    have next : nextHandle (UInt32.ofNat (n + 1)) = UInt32.ofNat (n + 2) := by
      apply UInt32.toNat_inj.1
      rw [toNat_nextHandle _ (by rw [number _ (by omega)]; omega), number _ (by omega),
        number _ few]
    have other : (1 : Handle) ≠ UInt32.ofNat (n + 2) := by
      intro same
      have one := number (n + 2) few
      rw [← same, UInt32.toNat_one] at one
      omega
    have more : churn (n + 1) = churn n ++ [.alloc 1, .release (UInt32.ofNat (n + 2))] := by
      rw [churn, List.range_succ, List.flatMap_append]
      rfl
    rw [more, ← List.cons_append, uses_append, ih (by omega)]
    exact uses_alloc_release 5 [0, 0, 0, 0, 0] next other (by decide)

/-- A block of five words is kept while all other handles are issued, one after
another. The next allocation then answers with the handle of that block: its
words are lost, and stay counted. -/
theorem handle_issued_again :
    let heap := uses {} (.alloc 5 :: churn (2 ^ 32 - 2))
    heap.Issues 3 1 ∧ heap.contains 1 = true ∧
      (heap.use (.alloc 3)).used = 8 ∧ (heap.use (.alloc 3)).liveWords = 3 := by
  intro heap
  have stands : heap =
      { blocks := [(1, [0, 0, 0, 0, 0])], last := UInt32.ofNat (2 ^ 32 - 2 + 1), used := 5 } :=
    uses_churn (by omega)
  rw [stands]
  exact ⟨⟨_, rfl⟩, rfl, rfl, rfl⟩

end Heap

end LineScript
