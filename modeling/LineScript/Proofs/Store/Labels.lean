import LineScript.Label
import LineScript.Proofs.Store.Clean
/-!
# The labels of a store

Looking past the label of a line terminates it, so a scan for labels changes
the lines it reads. What it changes is settled once: a line with a label keeps
its spaces and its dot and has a space behind its name from then on, unless
the dot is all it has room for (`Labelled.skipLeading`). A second look finds
nothing left to do, and the name that was bound is the one that stands in the
line afterwards. A rebuilt table is therefore told by the store it leaves
(`LabelTable.rebuild_exact`).
-/

namespace LineScript

/-- The name of the label that begins a text: what stands between the dot and
the next space. -/
def Text.labelName (t : Text) : Text := ((t.dropWhile (· = ' ')).drop 1).takeWhile (· ≠ ' ')

namespace Slot

variable {row : Nat} {slot : Slot} {spaces name after : List UInt8}

/-! ## The label of a slot -/

/-- Whether the first byte of a slot that is no space is the dot of a label. -/
def isLabelled (slot : Slot) : Bool :=
  (slot.content.dropWhile (· = spaceByte)).head? = some labelByte

/-- The parts of a slot that begins with a label. -/
structure Labelled (slot : Slot) (spaces name after : List UInt8) : Prop where
  content : slot.content = spaces ++ labelByte :: (name ++ after)
  spaces : ∀ b ∈ spaces, b = spaceByte
  name : ∀ b ∈ name, b ≠ spaceByte
  after : ∀ b ∈ after.head?, b = spaceByte

/-- The first byte at which a run ends fails the test of the run. -/
theorem head?_dropWhile {α : Type} {p : α → Bool} {l : List α} {a : α}
    (h : a ∈ (l.dropWhile p).head?) : p a = false := by
  have first := List.head?_dropWhile_not p l
  rw [Option.mem_def.1 h] at first
  exact first

theorem exists_labelled (h : slot.isLabelled = true) :
    ∃ spaces name after, slot.Labelled spaces name after := by
  obtain ⟨body, front⟩ := List.head?_eq_some_iff.1 (of_decide_eq_true h)
  refine ⟨slot.content.takeWhile (· = spaceByte), body.takeWhile (· ≠ spaceByte),
    body.dropWhile (· ≠ spaceByte), ?_, ?_, ?_, ?_⟩
  · rw [List.takeWhile_append_dropWhile, ← front, List.takeWhile_append_dropWhile]
  · intro b mem
    exact of_decide_eq_true (List.all_eq_true.1 List.all_takeWhile b mem)
  · intro b mem
    exact of_decide_eq_true (List.all_eq_true.1 List.all_takeWhile b mem)
  · intro b mem
    have stop := head?_dropWhile mem
    simpa using stop

namespace Labelled

/-- What follows the spaces. -/
theorem dropWhile (h : slot.Labelled spaces name after) :
    slot.content.dropWhile (· = spaceByte) = labelByte :: (name ++ after) := by
  have all : ∀ b ∈ spaces, decide (b = spaceByte) = true :=
    fun b mem => decide_eq_true (h.spaces b mem)
  rw [h.content, List.dropWhile_append_of_pos all, List.dropWhile_cons_of_neg (by decide)]

theorem isLabelled (h : slot.Labelled spaces name after) : slot.isLabelled = true := by
  rw [Slot.isLabelled, h.dropWhile, List.head?_cons, decide_eq_true_eq]

end Labelled

/-! ## Looking past it -/

/-- The content of a slot holds no zero. -/
theorem ne_zero_of_mem_content {b : UInt8} (mem : b ∈ slot.content) : b ≠ 0 :=
  of_decide_eq_true (List.all_eq_true.1 List.all_takeWhile b mem)

/-- What is found in a slot without a label: where its spaces end. -/
theorem skipLeading_eq_of_unlabelled (row : Nat) (h : slot.isLabelled = false) :
    slot.skipLeading row =
      ({ offset := (slot.content.takeWhile (· = spaceByte)).length }, slot) := by
  have other : (slot.content.dropWhile (· = spaceByte)).head? ≠ some labelByte :=
    of_decide_eq_false h
  unfold skipLeading
  dsimp only
  rw [drop_spaces]
  cases body : slot.content.dropWhile (· = spaceByte) with
  | nil => rfl
  | cons first rest =>
    rw [body, List.head?_cons] at other
    have bare : ¬ first = labelByte := fun same => other (congrArg some same)
    simp only [if_neg bare]

/-- **A slot without a label stays as it is.** -/
theorem skipLeading_of_unlabelled (row : Nat) (h : slot.isLabelled = false) :
    (slot.skipLeading row).1.label = none ∧ (slot.skipLeading row).2 = slot := by
  rw [skipLeading_eq_of_unlabelled row h]
  exact ⟨rfl, rfl⟩

namespace Labelled

/-- The name, and what follows it. -/
theorem span (h : slot.Labelled spaces name after) :
    (name ++ after).takeWhile (· ≠ spaceByte) = name ∧
      (name ++ after).dropWhile (· ≠ spaceByte) = after := by
  have all : ∀ b ∈ name, decide (b ≠ spaceByte) = true := fun b mem => decide_eq_true (h.name b mem)
  rw [List.takeWhile_append_of_pos all, List.dropWhile_append_of_pos all]
  cases after with
  | nil => exact ⟨List.append_nil name, rfl⟩
  | cons b after =>
    obtain rfl := h.after b rfl
    rw [List.takeWhile_cons_of_neg (by decide), List.dropWhile_cons_of_neg (by decide),
      List.append_nil]
    exact ⟨rfl, rfl⟩

/-- The spaces at the front are what they are called. -/
theorem takeWhile (h : slot.Labelled spaces name after) :
    slot.content.takeWhile (· = spaceByte) = spaces := by
  have all : ∀ b ∈ spaces, decide (b = spaceByte) = true :=
    fun b mem => decide_eq_true (h.spaces b mem)
  rw [h.content, List.takeWhile_append_of_pos all, List.takeWhile_cons_of_neg (by decide),
    List.append_nil]

/-- A label with a space behind it is as it should be. -/
theorem skipLeading_ended (h : slot.Labelled spaces name after) (row : Nat) (ended : after ≠ []) :
    slot.skipLeading row =
      ({ offset := spaces.length + 1 + name.length + (after.takeWhile (· = spaceByte)).length
         label := some (spaces.length + 1, spaces.length + 1 + name.length) }, slot) := by
  have closed : ¬ after.isEmpty = true := fun none => ended (List.isEmpty_iff.1 none)
  unfold skipLeading
  dsimp only
  rw [drop_spaces, h.dropWhile, h.takeWhile]
  dsimp only
  rw [h.span.1, h.span.2, if_pos rfl, if_neg closed]

/-- A label that runs to the end of the text is terminated. -/
theorem skipLeading_open (h : slot.Labelled spaces name []) (row : Nat) :
    let ended := terminate (slot.content.length + 1 < row) name
    slot.skipLeading row =
      ({ offset := spaces.length + 1 + ended.1.length + ended.2.length
         label := some (spaces.length + 1, spaces.length + 1 + ended.1.length) },
        pad row (spaces ++ labelByte :: (ended.1 ++ ended.2))) := by
  unfold skipLeading
  dsimp only
  rw [drop_spaces, h.dropWhile, h.takeWhile]
  dsimp only
  rw [h.span.1, h.span.2, if_pos rfl, if_pos List.isEmpty_nil, List.append_assoc, List.cons_append]

end Labelled

/-- How a label is terminated: a space goes behind what is left of the name,
unless the slot is full and there is no name. -/
theorem terminate_cases (hasRoom : Bool) (name : List UInt8) :
    (∀ b ∈ (terminate hasRoom name).1, b ∈ name) ∧
      ((terminate hasRoom name).2 = [spaceByte] ∨
        hasRoom = false ∧ name = [] ∧ terminate hasRoom name = ([], [])) := by
  unfold terminate
  split
  · exact ⟨fun b mem => mem, .inl rfl⟩
  · next full =>
    split
    · next bare =>
      exact ⟨fun b mem => absurd mem List.not_mem_nil,
        .inr ⟨Bool.not_eq_true _ ▸ full, List.isEmpty_iff.1 bare, rfl⟩⟩
    · refine ⟨fun b mem => ?_, .inl rfl⟩
      have kept := List.mem_of_mem_drop (List.mem_reverse.1 mem)
      exact List.mem_reverse.1 (List.dropWhile_sublist _ |>.mem kept)

namespace Labelled

/-- **Looking past a label** leaves a slot with the same spaces and a label
that is told by its span. A second look finds the same there, and leaves it as
it is. -/
theorem skipLeading (h : slot.Labelled spaces name after) (row : Nat) :
    ∃ name' after', (slot.skipLeading row).2.Labelled spaces name' after' ∧
      (slot.skipLeading row).1.label =
        some (spaces.length + 1, spaces.length + 1 + name'.length) ∧
      (slot.skipLeading row).2.skipLeading row = slot.skipLeading row := by
  by_cases ended : after = []
  · subst ended
    have look := h.skipLeading_open row
    obtain ⟨part, closed⟩ := terminate_cases (slot.content.length + 1 < row) name
    generalize eq : terminate (slot.content.length + 1 < row) name = last at look part closed
    obtain ⟨name', after'⟩ := last
    dsimp only at look part closed
    have result := congrArg Prod.snd look
    have held : ∀ b, b ∈ spaces ∨ b ∈ name → b ≠ 0 := by
      intro b mem
      have inside : b ∈ slot.content := by
        rw [h.content, List.append_nil, List.mem_append, List.mem_cons]
        exact mem.imp id .inr
      exact ne_zero_of_mem_content inside
    have behind : ∀ b ∈ after', b = spaceByte := by
      rcases closed with rfl | ⟨-, -, none⟩
      · exact fun b mem => List.mem_singleton.1 mem
      · obtain ⟨-, rfl⟩ := Prod.mk.inj none
        exact List.forall_mem_nil _
    have nonzero : ∀ b ∈ spaces ++ labelByte :: (name' ++ after'), b ≠ 0 := by
      intro b mem
      simp only [List.mem_append, List.mem_cons] at mem
      rcases mem with mem | rfl | mem | mem
      · exact held b (.inl mem)
      · decide
      · exact held b (.inr (part b mem))
      · rw [behind b mem]
        decide
    have labelled : (slot.skipLeading row).2.Labelled spaces name' after' := by
      rw [result]
      exact ⟨content_pad_bytes row nonzero, h.spaces, fun b mem => h.name b (part b mem),
        fun b first => behind b (List.mem_of_mem_head? first)⟩
    refine ⟨name', after', labelled, congrArg (fun looked => looked.1.label) look, ?_⟩
    rcases closed with rfl | ⟨full, rfl, none⟩
    · rw [labelled.skipLeading_ended row (List.cons_ne_nil _ _), look]
      rfl
    · -- a bare dot that fills the slot: there is as little room as before
      obtain ⟨rfl, rfl⟩ := Prod.mk.inj none
      have same : (slot.skipLeading row).2.content = slot.content :=
        labelled.content.trans h.content.symm
      rw [labelled.skipLeading_open row, same, eq, look]
  · have look := h.skipLeading_ended row ended
    rw [look]
    exact ⟨name, after, h, rfl, look⟩

/-! ## Its name -/

/-- The span of a label is that of its name. -/
theorem textAt (h : slot.Labelled spaces name after) :
    slot.textAt (spaces.length + 1, spaces.length + 1 + name.length) = Utf8.decode name := by
  have shape : slot.content = spaces ++ [labelByte] ++ (name ++ after) := by
    rw [h.content, List.append_assoc, List.singleton_append]
  have front : (spaces ++ [labelByte]).length = spaces.length + 1 := by
    rw [List.length_append, List.length_singleton]
  rw [Slot.textAt, Nat.add_sub_cancel_left, ← front, shape, List.drop_left, List.take_left]

/-- **In a clean slot** the name stands between the dot and the next space. -/
theorem decode_name (h : slot.Labelled spaces name after) (clean : slot.Clean row) :
    Utf8.decode name = Text.labelName slot.text := by
  have whole := clean.encode_text
  have body := h.dropWhile
  rw [← whole, (Utf8.span_eq_encode (a := ' ') (by decide) rfl slot.text).2] at body
  unfold Text.labelName
  cases front : slot.text.dropWhile (· = ' ') with
  | nil =>
    rw [front] at body
    cases body
  | cons c rest =>
    rw [front] at body
    have dot : c = '.' := by
      obtain ⟨first, more, bytes, -⟩ := Utf8.encodeChar_eq_cons c
      have same : first = labelByte := by
        rw [Utf8.encode_cons, bytes, List.cons_append] at body
        exact (List.cons.inj body).1
      exact (Utf8.eq_iff_of_mem_encodeChar (by decide) rfl (bytes ▸ List.mem_cons_self)).1 same
    subst dot
    rw [encode_label] at body
    have name_eq := h.span.1
    rw [← (List.cons.inj body).2,
      (Utf8.span_ne_encode (a := ' ') (by decide) rfl rest).1] at name_eq
    rw [← name_eq, Utf8.decode_encode, List.drop_succ_cons, List.drop_zero]

end Labelled

/-- It has a label afterwards if it had one before. -/
theorem isLabelled_skipLeading (slot : Slot) (row : Nat) :
    (slot.skipLeading row).2.isLabelled = slot.isLabelled := by
  cases begins : slot.isLabelled with
  | false => rw [(skipLeading_of_unlabelled row begins).2, begins]
  | true =>
    obtain ⟨spaces, name, after, label⟩ := exists_labelled begins
    obtain ⟨name', after', terminated, -⟩ := label.skipLeading row
    exact terminated.isLabelled

/-- **A second look** finds the same, and changes nothing. -/
theorem skipLeading_skipLeading (slot : Slot) (row : Nat) :
    (slot.skipLeading row).2.skipLeading row = slot.skipLeading row := by
  cases begins : slot.isLabelled with
  | false => rw [(skipLeading_of_unlabelled row begins).2]
  | true =>
    obtain ⟨spaces, name, after, label⟩ := exists_labelled begins
    obtain ⟨name', after', -, -, again⟩ := label.skipLeading row
    exact again

end Slot

namespace Store

variable {s s' : Store} {index line : Nat}

/-! ## The label lines of a store -/

/-- Whether a line begins with a label. -/
def isLabelLine (s : Store) (index : Nat) : Bool := s.slots[index]?.any Slot.isLabelled

/-- Termination changes one slot at most. -/
theorem getElem?_terminateLabel (s : Store) (index line : Nat) :
    (s.terminateLabel index).slots[line]? =
      if line = index then s.slots[line]?.map fun slot => (slot.skipLeading s.row).2
      else s.slots[line]? := by
  unfold terminateLabel
  split
  · next slot there =>
    have inside : index < s.slots.size := (Array.getElem?_eq_some_iff.1 there).1
    dsimp only
    split
    · next same =>
      split
      · next at_it =>
        rw [at_it, there, Option.map_some, same]
      · rfl
    · split
      · next at_it =>
        rw [at_it, Array.getElem?_setIfInBounds_self_of_lt inside, there]
        rfl
      · next other => exact Array.getElem?_setIfInBounds_ne (Ne.symm other)
  · next none =>
    split
    · next at_it =>
      rw [at_it, none]
      rfl
    · rfl

/-- A line that is terminated already stays as it is. -/
theorem terminateLabel_of_same (same : ∀ slot, s.slots[index]? = some slot →
    (slot.skipLeading s.row).2 = slot) : s.terminateLabel index = s := by
  unfold terminateLabel
  split
  · next slot there =>
    dsimp only
    rw [if_pos (same slot there)]
  · rfl

/-- **A line without a label** stays as it is. -/
theorem terminateLabel_of_unlabelled (h : s.isLabelLine index = false) :
    (s.leading index).label = none ∧ s.terminateLabel index = s := by
  have bare : ∀ slot, s.slots[index]? = some slot → slot.isLabelled = false := by
    intro slot there
    rwa [isLabelLine, there, Option.any_some] at h
  refine ⟨?_, terminateLabel_of_same fun slot there =>
    (Slot.skipLeading_of_unlabelled s.row (bare slot there)).2⟩
  unfold leading
  cases there : s.slots[index]? with
  | none => rfl
  | some slot => exact (Slot.skipLeading_of_unlabelled s.row (bare slot there)).1

/-- **A line with a label** has its name where the span of the label says. -/
theorem leading_of_label (clean : s.Clean) (h : s.isLabelLine index = true) :
    ∃ span, (s.leading index).label = some span ∧
      (s.terminateLabel index).textAt index span =
        Text.labelName ((s.terminateLabel index).line index) := by
  obtain ⟨slot, there, begins⟩ := (Option.any_eq_true _ _).1 h
  obtain ⟨spaces, name, after, label⟩ := Slot.exists_labelled begins
  obtain ⟨name', after', terminated, span, -⟩ := label.skipLeading s.row
  have now : (s.terminateLabel index).slots[index]? = some (slot.skipLeading s.row).2 := by
    rw [getElem?_terminateLabel, if_pos rfl, there, Option.map_some]
  refine ⟨(spaces.length + 1, spaces.length + 1 + name'.length), ?_, ?_⟩
  · rw [leading, there]
    exact span
  · rw [textAt, line, now, Option.map_some, Option.map_some, Option.getD_some, Option.getD_some,
      terminated.textAt, terminated.decode_name (Slot.clean_skipLeading (clean.getElem there))]

/-- Termination makes no line a label line and leaves every label line one. -/
theorem isLabelLine_terminateLabel (s : Store) (index : Nat) :
    (s.terminateLabel index).isLabelLine = s.isLabelLine := by
  funext line
  rw [isLabelLine, isLabelLine, getElem?_terminateLabel]
  split
  · cases s.slots[line]? with
    | none => rfl
    | some slot => exact Slot.isLabelled_skipLeading slot s.row
  · rfl

/-! ## Many lines -/

/-- The store with the labels of some lines terminated, one after another. -/
def terminateAll (s : Store) (lines : List Nat) : Store := lines.foldl terminateLabel s

theorem evolves_terminateAll (s : Store) (lines : List Nat) : s.Evolves (s.terminateAll lines) := by
  induction lines generalizing s with
  | nil => exact .refl s
  | cons index lines ih => exact (s.evolves_terminateLabel index).trans (ih _)

/-- **Each of the lines is terminated**, and no other. -/
theorem getElem?_terminateAll (s : Store) (lines : List Nat) (line : Nat) :
    (s.terminateAll lines).slots[line]? =
      if line ∈ lines then s.slots[line]?.map fun slot => (slot.skipLeading s.row).2
      else s.slots[line]? := by
  induction lines generalizing s with
  | nil => rfl
  | cons index lines ih =>
    rw [terminateAll, List.foldl_cons, ← terminateAll, ih, getElem?_terminateLabel,
      (s.terminateLabel_shape index).row]
    by_cases at_it : line = index
    · rw [if_pos at_it, if_pos (List.mem_cons.2 (.inl at_it))]
      split
      · -- twice is once
        rw [Option.map_map]
        congr 1
        funext slot
        exact congrArg Prod.snd (Slot.skipLeading_skipLeading slot s.row)
      · rfl
    · simp only [List.mem_cons, at_it, false_or, if_false]

theorem isLabelLine_terminateAll (s : Store) (lines : List Nat) :
    (s.terminateAll lines).isLabelLine = s.isLabelLine := by
  induction lines generalizing s with
  | nil => rfl
  | cons index lines ih => exact (ih _).trans (s.isLabelLine_terminateLabel index)

/-- Once is enough. -/
theorem terminateAll_terminateAll (s : Store) (lines : List Nat) :
    (s.terminateAll lines).terminateAll lines = s.terminateAll lines := by
  have fixed : ∀ index ∈ lines,
      (s.terminateAll lines).terminateLabel index = s.terminateAll lines := by
    intro index mem
    refine terminateLabel_of_same fun slot there => ?_
    rw [getElem?_terminateAll, if_pos mem] at there
    obtain ⟨before, -, rfl⟩ := Option.map_eq_some_iff.1 there
    rw [(s.evolves_terminateAll lines).shape.row]
    exact congrArg Prod.snd (Slot.skipLeading_skipLeading before s.row)
  generalize s.terminateAll lines = left at fixed
  induction lines with
  | nil => rfl
  | cons index lines ih =>
    obtain ⟨first, rest⟩ := List.forall_mem_cons.1 fixed
    rw [terminateAll, List.foldl_cons, first]
    exact ih rest

end Store

namespace LabelTable

variable {t : LabelTable} {s : Store}

/-! ## The scan -/

/-- The label lines among `count` lines from `index` on, as long as there is
`room` for another. -/
def labelLines (s : Store) (count room index : Nat) : List Nat :=
  ((List.range' index count).filter s.isLabelLine).take room

theorem mem_labelLines {count room index line : Nat} (mem : line ∈ labelLines s count room index) :
    (index ≤ line ∧ line < index + count) ∧ s.isLabelLine line = true := by
  obtain ⟨within, label⟩ := List.mem_filter.1 (List.mem_of_mem_take mem)
  exact ⟨List.mem_range'_1.1 within, label⟩

/-- What binds the names of some lines. -/
def bindings (nameLen : Nat) (s : Store) (lines : List Nat) : List (Text × Nat) :=
  lines.map fun line => (Utf8.fit nameLen (Text.labelName (s.line line)), line)

/-- **What a scan finds**: the label lines, each with the name that stands in
the store it leaves. -/
theorem scan_eq (nameLen count room index : Nat) {s : Store} (clean : s.Clean) :
    scan nameLen count room index s =
      let lines := labelLines s count room index
      (bindings nameLen (s.terminateAll lines) lines, s.terminateAll lines) := by
  induction count generalizing room index s with
  | zero => simp [scan, labelLines, bindings, Store.terminateAll]
  | succ count ih =>
    cases room with
    | zero => simp [scan, labelLines, bindings, Store.terminateAll]
    | succ room =>
      unfold scan labelLines
      rw [List.range'_succ]
      cases label : s.isLabelLine index with
      | true =>
        obtain ⟨span, begins, name⟩ := Store.leading_of_label clean label
        have same : labelLines (s.terminateLabel index) count room (index + 1) =
            labelLines s count room (index + 1) := by
          rw [labelLines, s.isLabelLine_terminateLabel index]
          rfl
        have rest := ih room (index + 1) (clean.terminateLabel index)
        rw [same] at rest
        rw [begins, List.filter_cons_of_pos label, List.take_succ_cons, ← labelLines]
        dsimp only
        rw [rest, name]
        -- the lines after this one are all that the rest of the scan touches
        have later : index ∉ labelLines s count room (index + 1) := by
          intro mem
          have := mem_labelLines mem
          omega
        have stays : (Store.terminateAll (s.terminateLabel index)
            (labelLines s count room (index + 1))).line index =
              (s.terminateLabel index).line index := by
          rw [Store.line, Store.getElem?_terminateAll, if_neg later]
          rfl
        rw [← stays]
        rfl
      | false =>
        obtain ⟨bare, same⟩ := Store.terminateLabel_of_unlabelled label
        have skip : ¬ s.isLabelLine index = true := Bool.eq_false_iff.1 label
        rw [bare, same, List.filter_cons_of_neg skip]
        exact ih (room + 1) (index + 1) clean

/-! ## First match -/

/-- **The first binding of a name** is the one of the least line, if the lines
are in order. -/
theorem lookup_eq_some_iff {l : List (Text × Nat)} (ordered : (l.map Prod.snd).Pairwise (· < ·))
    (name : Text) (line : Nat) : l.lookup name = some line ↔
      (name, line) ∈ l ∧ ∀ other, (name, other) ∈ l → line ≤ other := by
  rw [List.lookup_eq_some_iff]
  constructor
  · rintro ⟨front, rest, rfl, differ⟩
    refine ⟨List.mem_append_right _ List.mem_cons_self, fun other mem => ?_⟩
    rw [List.map_append, List.map_cons, List.pairwise_append, List.pairwise_cons] at ordered
    rcases List.mem_append.1 mem with before | here
    · exact absurd rfl (bne_iff_ne.1 (differ _ before))
    · rcases List.mem_cons.1 here with same | behind
      · exact (Prod.mk.inj same).2.ge
      · exact (ordered.2.1.1 other (List.mem_map_of_mem behind)).le
  · rintro ⟨mem, least⟩
    obtain ⟨front, rest, rfl⟩ := List.append_of_mem mem
    refine ⟨front, rest, rfl, fun bound before => bne_iff_ne.2 fun same => ?_⟩
    rw [List.map_append, List.map_cons, List.pairwise_append] at ordered
    have less := ordered.2.2 bound.2 (List.mem_map_of_mem before) line List.mem_cons_self
    have atMost := least bound.2 (List.mem_append_left _ (same ▸ before))
    omega

/-- A name that is not bound is not found. -/
theorem lookup_eq_none_iff (l : List (Text × Nat)) (name : Text) :
    l.lookup name = none ↔ ∀ line, (name, line) ∉ l := by
  rw [List.lookup_eq_none_iff]
  constructor
  · intro differ line mem
    exact bne_iff_ne.1 (differ _ mem) rfl
  · intro absent bound mem
    exact bne_iff_ne.2 fun same => absent bound.2 (same ▸ mem)

/-! ## A rebuilt table -/

/-- What a table rebuilt from line `start` on is, and the store it leaves. -/
structure Rebuilt (t : LabelTable) (s : Store) (start : Nat) (t' : LabelTable) (s' : Store) :
    Prop where
  /-- Bound are the first label lines, in order and as many as there is room for. -/
  lines : t'.entries.map Prod.snd =
    ((List.range' start (s.size - start)).filter s.isLabelLine).take t.capacity
  /-- Each has the name that stands in its line now, cut to the length of names. -/
  names : ∀ name line, (name, line) ∈ t'.entries →
    Utf8.LongestFit t.nameLen (Text.labelName (s'.line line)) name
  /-- A query is cut the same way and finds the first line of that name. -/
  found : ∀ query name, Utf8.LongestFit t.nameLen query name → ∀ line,
    t'.lookup query = some line ↔
      (name, line) ∈ t'.entries ∧ ∀ other, (name, other) ∈ t'.entries → line ≤ other
  /-- Nothing is found if there is none. -/
  missing : ∀ query name, Utf8.LongestFit t.nameLen query name →
    (t'.lookup query = none ↔ ∀ line, (name, line) ∉ t'.entries)
  /-- The lines before the scan, those without a label and those after the
  table was full keep every byte. -/
  kept : ∀ line, line < start ∨ s.isLabelLine line = false ∨
      (t'.entries.length = t.capacity ∧ ∀ bound ∈ t'.entries.map Prod.snd, bound < line) →
    s'.slots[line]? = s.slots[line]?
  /-- Rebuilding again changes neither the table nor the store. -/
  again : t'.rebuild s' start = (t', s')

/-- A rebuilt table, told by the store it leaves. -/
theorem rebuild_eq (t : LabelTable) {s : Store} (clean : s.Clean) (start : Nat) :
    t.rebuild s start =
      let lines := labelLines s (s.size - start) t.capacity start
      ({ t with entries := bindings t.nameLen (s.terminateAll lines) lines },
        s.terminateAll lines) := by
  rw [rebuild, scan_eq _ _ _ _ clean]

theorem map_snd_bindings (nameLen : Nat) (s : Store) (lines : List Nat) :
    (bindings nameLen s lines).map Prod.snd = lines := by
  rw [bindings, List.map_map]
  exact List.map_id lines

/-- **A rebuilt table is exact**, whatever the lines hold. -/
theorem rebuild_exact (t : LabelTable) {s : Store} (clean : s.Clean) (start : Nat) :
    Rebuilt t s start (t.rebuild s start).1 (t.rebuild s start).2 := by
  rw [rebuild_eq t clean start]
  dsimp only
  have ordered : (labelLines s (s.size - start) t.capacity start).Pairwise (· < ·) :=
    ((List.pairwise_lt_range' 1).filter s.isLabelLine).take
  have bound := map_snd_bindings t.nameLen
    (s.terminateAll (labelLines s (s.size - start) t.capacity start))
    (labelLines s (s.size - start) t.capacity start)
  refine ⟨bound, ?_, ?_, ?_, ?_, ?_⟩
  · intro name line mem
    obtain ⟨_, -, same⟩ := List.mem_map.1 mem
    obtain ⟨rfl, rfl⟩ := Prod.mk.inj same
    exact Utf8.longestFit_fit _ _
  · intro query name cut line
    rw [lookup, ← cut.eq_fit]
    exact lookup_eq_some_iff (bound.symm ▸ ordered) name line
  · intro query name cut
    rw [lookup, ← cut.eq_fit]
    exact lookup_eq_none_iff _ name
  · intro line outside
    rw [Store.getElem?_terminateAll, if_neg]
    intro mem
    obtain ⟨⟨reached, -⟩, label⟩ := mem_labelLines mem
    rcases outside with before | bare | ⟨-, behind⟩
    · omega
    · rw [bare] at label
      cases label
    · exact absurd (behind line (bound.symm ▸ mem)) (Nat.lt_irrefl line)
  · -- the same lines are found again, and nothing is left to terminate
    have evolves := s.evolves_terminateAll (labelLines s (s.size - start) t.capacity start)
    rw [rebuild_eq _ (clean.evolves evolves) start, evolves.shape.size]
    dsimp only
    have same : labelLines (s.terminateAll (labelLines s (s.size - start) t.capacity start))
        (s.size - start) t.capacity start = labelLines s (s.size - start) t.capacity start := by
      rw [labelLines, Store.isLabelLine_terminateAll]
      rfl
    rw [same, Store.terminateAll_terminateAll]

/-- It holds of names cut inside a character and of a label that fills its
slot; the later of two equal names is not found. -/
theorem rebuild_exact_cut :
    ∃ s t' s', s.Clean ∧ (LabelTable.mk 3 2 []).rebuild s 1 = (t', s') ∧
      Rebuilt (LabelTable.mk 3 2 []) s 1 t' s' ∧
      s.line 3 = ".abcdé".toList ∧ s'.line 3 = ".abcd ".toList ∧
      t'.entries = [("a".toList, 2), ("ab".toList, 3), ("a".toList, 4)] ∧
      t'.lookup "aéx".toList = some 2 := by
  obtain ⟨s, made⟩ : ∃ s, (Store.new 6 8).applyAll [.write 2 " .aé b".toList,
    .write 3 ".abcdé".toList, .write 4 ".aéb".toList] = s := ⟨_, rfl⟩
  have clean : s.Clean := (Store.clean_new 6 (by decide)).evolves ⟨_, made⟩
  refine ⟨s, _, _, clean, rfl, rebuild_exact (LabelTable.mk 3 2 []) clean 1, ?_⟩
  rw [← made]
  decide +kernel

end LabelTable

end LineScript
