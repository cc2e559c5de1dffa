import LineScript.Word.Argument
import Mathlib.Data.List.TakeWhile
/-!
# Words

Nothing that is read of a text depends on how many spaces stand around its words
(`Text.Spaced.decodes`). The first word is the keyword. Of the words behind it
the first operator is taken out, wherever it stands, if one is asked for; the
others are the arguments, in their order, as far as they are kept
(`Argument.ofWords`). So an operator is found even behind the last argument that
is kept, and a second one is an argument like any other word.
-/

namespace LineScript

namespace Text

variable {t w rest : Text} {ws : List Text}

/-! ## Spacing -/

/-- Some words with spaces around them: at least one between two words, and any
number in front of the first and behind the last. -/
inductive Spaced : Text → List Text → Prop where
  | spaces (n : Nat) : Spaced (List.replicate n ' ') []
  | word {w rest : Text} {ws : List Text} (n : Nat) (some : w ≠ []) (plain : ' ' ∉ w)
    (gap : ∀ c ∈ rest.head?, c = ' ') (behind : Spaced rest ws) :
    Spaced (List.replicate n ' ' ++ (w ++ rest)) (w :: ws)

theorem forall_mem_spaces (n : Nat) : ∀ c ∈ List.replicate n ' ', decide (c = ' ') = true := by
  intro c mem
  simp [List.eq_of_mem_replicate mem]

/-- Spaces before a text that does not begin with one. -/
theorem dropSpaces_spaces (n : Nat) (first : ∀ c ∈ rest.head?, c ≠ ' ') :
    dropSpaces (List.replicate n ' ' ++ rest) = rest := by
  rw [dropSpaces, List.dropWhile_append_of_pos (forall_mem_spaces n)]
  cases rest with
  | nil => rfl
  | cons c rest =>
    have differs : c ≠ ' ' := first c rfl
    rw [List.dropWhile_cons_of_neg (by simpa using differs)]

theorem head?_word (some : w ≠ []) (plain : ' ' ∉ w) (rest : Text) :
    ∀ c ∈ (w ++ rest).head?, c ≠ ' ' := by
  obtain ⟨first, w, rfl⟩ := List.exists_cons_of_ne_nil some
  intro c mem
  obtain rfl : first = c := Option.some.inj mem
  rintro rfl
  exact plain List.mem_cons_self

/-- What spaces in front of a word are dropped from. -/
theorem dropSpaces_word (n : Nat) (some : w ≠ []) (plain : ' ' ∉ w) (rest : Text) :
    dropSpaces (List.replicate n ' ' ++ (w ++ rest)) = w ++ rest :=
  dropSpaces_spaces n (head?_word some plain rest)

/-- A word runs to the next space. -/
theorem span_word (plain : ' ' ∉ w) (gap : ∀ c ∈ rest.head?, c = ' ') :
    (w ++ rest).takeWhile (· ≠ ' ') = w ∧ (w ++ rest).dropWhile (· ≠ ' ') = rest := by
  have inside : ∀ c ∈ w, decide (c ≠ ' ') = true := by
    intro c mem
    rw [decide_eq_true_eq]
    rintro rfl
    exact plain mem
  rw [List.takeWhile_append_of_pos inside, List.dropWhile_append_of_pos inside]
  cases rest with
  | nil => exact ⟨List.append_nil w, rfl⟩
  | cons c rest =>
    obtain rfl : c = ' ' := gap c rfl
    exact ⟨List.append_nil w, rfl⟩

theorem dropSpaces_replicate (n : Nat) : dropSpaces (List.replicate n ' ') = [] :=
  List.dropWhile_eq_nil_iff.2 (forall_mem_spaces n)

theorem Spaced.dropSpaces (h : t.Spaced ws) : t.dropSpaces.Spaced ws := by
  cases h with
  | spaces n =>
    rw [dropSpaces_replicate]
    exact .spaces 0
  | word n some plain gap behind =>
    rw [dropSpaces_word n some plain]
    exact .word 0 some plain gap behind

/-! ## Words -/

theorem words_space (t : Text) : words (' ' :: t) = words t := by
  have split : (' ' :: t).splitOn ' ' = [] :: t.splitOn ' ' :=
    List.splitOn_append_cons_self_of_not_mem List.not_mem_nil t
  rw [words, split]
  rfl

theorem words_spaces (n : Nat) (t : Text) : words (List.replicate n ' ' ++ t) = words t := by
  induction n with
  | zero => rfl
  | succ n ih => rw [List.replicate_succ, List.cons_append, words_space, ih]

theorem words_word (some : w ≠ []) (plain : ' ' ∉ w) (gap : ∀ c ∈ rest.head?, c = ' ') :
    words (w ++ rest) = w :: words rest := by
  have kept : (!w.isEmpty) = true := by simpa using some
  cases rest with
  | nil =>
    rw [List.append_nil, words, List.splitOn_eq_singleton plain, List.filter_cons, if_pos kept]
    rfl
  | cons c rest =>
    obtain rfl : c = ' ' := gap c rfl
    rw [words, List.splitOn_append_cons_self_of_not_mem plain, List.filter_cons, if_pos kept,
      words_space]
    rfl

/-- **The words of a text are those that were spaced.** -/
theorem Spaced.words (h : t.Spaced ws) : t.words = ws := by
  induction h with
  | spaces n =>
    rw [← List.append_nil (List.replicate n ' '), words_spaces]
    rfl
  | word n some plain gap behind ih => rw [words_spaces, words_word some plain gap, ih]

theorem Spaced.space (h : t.Spaced ws) : Spaced (' ' :: t) ws := by
  cases h with
  | spaces n => exact .spaces (n + 1)
  | word n some plain gap behind => exact .word (n + 1) some plain gap behind

/-- Another character begins a word of its own, or belongs to the first. -/
theorem Spaced.cons {c : Char} (other : c ≠ ' ') (h : t.Spaced ws) :
    ∃ ws', Spaced (c :: t) ws' := by
  have single : ' ' ∉ [c] := by simpa using other.symm
  cases h with
  | spaces n =>
    refine ⟨_, .word 0 (List.cons_ne_nil c []) single ?_ (.spaces n)⟩
    intro c mem
    exact List.eq_of_mem_replicate (List.mem_of_mem_head? mem)
  | @word w rest ws n some plain gap behind =>
    cases n with
    | zero =>
      refine ⟨_, .word (w := c :: w) 0 (List.cons_ne_nil c w) ?_ gap behind⟩
      simpa using ⟨other.symm, plain⟩
    | succ n =>
      refine ⟨_, .word 0 (List.cons_ne_nil c []) single ?_ (.word (n + 1) some plain gap behind)⟩
      intro c mem
      exact (Option.some.inj mem).symm

/-- **Every text is its words**, with some spaces around them. -/
theorem spaced_words (t : Text) : t.Spaced t.words := by
  have any : ∃ ws, t.Spaced ws := by
    induction t with
    | nil => exact ⟨[], .spaces 0⟩
    | cons c t ih =>
      obtain ⟨ws, spaced⟩ := ih
      by_cases space : c = ' '
      · subst space
        exact ⟨ws, spaced.space⟩
      · exact spaced.cons space
  obtain ⟨ws, spaced⟩ := any
  rw [spaced.words]
  exact spaced

/-- The first of them is the keyword, and the others are spaced behind it. -/
theorem Spaced.keyword (h : t.Spaced ws) :
    t.keyword.1 = ws.headD [] ∧ t.keyword.2.Spaced ws.tail := by
  cases h with
  | spaces n =>
    rw [Text.keyword, dropSpaces_replicate]
    exact ⟨rfl, .spaces 0⟩
  | word n some plain gap behind =>
    obtain ⟨first, others⟩ := span_word plain gap
    rw [Text.keyword, dropSpaces_word n some plain]
    dsimp only
    rw [first, others]
    exact ⟨rfl, behind⟩

end Text

namespace Argument

/-- What some words say: the first operator among them, if one is asked for,
and without that word the first few as arguments. -/
def ofWords (words : List Text) (withOperator : Bool) (max : Nat) :
    List Argument × Option Operator :=
  if withOperator then
    (((words.eraseP fun w => (Operator.ofToken? w).isSome).take max).map classify,
      words.findSome? Operator.ofToken?)
  else ((words.take max).map classify, none)

theorem takeOperator_eq (words : List Text) : takeOperator words =
    (words.findSome? Operator.ofToken?, words.eraseP fun w => (Operator.ofToken? w).isSome) := by
  induction words with
  | nil => rfl
  | cons w words ih =>
    rw [takeOperator, List.findSome?_cons, List.eraseP_cons]
    cases Operator.ofToken? w with
    | none => rw [ih]; rfl
    | some op => rfl

/-- Only the words of a text are read. -/
theorem parseAll_eq (t : Text) (withOperator : Bool) (max : Nat) :
    parseAll t withOperator max = ofWords t.words withOperator max := by
  cases withOperator with
  | false => rfl
  | true => rw [parseAll, if_pos rfl, takeOperator_eq, ofWords, if_pos rfl]

end Argument

/-- A text is decoded by its words: its keyword is the first of them, and its
arguments and its operator are what the others say. -/
structure Text.Decodes (t : Text) (words : List Text) : Prop where
  keyword : t.keyword.1 = words.headD []
  arguments (withOperator : Bool) (max : Nat) :
    Argument.parseAll t.keyword.2 withOperator max = Argument.ofWords words.tail withOperator max

/-- **Decoding depends on the words alone.** -/
theorem Text.Spaced.decodes {t : Text} {words : List Text} (h : t.Spaced words) :
    t.Decodes words := by
  obtain ⟨first, others⟩ := h.keyword
  refine ⟨first, fun withOperator max => ?_⟩
  rw [Argument.parseAll_eq, others.words]

end LineScript
