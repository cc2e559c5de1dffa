import LineScript.Proofs.Store.Labels
import LineScript.Proofs.Store.Writing
/-!
# The front of a line

What looking past the front of a line finds, and what becomes of the line,
said of its text and not of its bytes (`Text.Front`). A label that runs to the
end of its line is ended by a space if there is room for one, and by a space
in place of the last character of its name if there is not. The one label
that is left open is a bare dot in the last place of its slot: it has neither
room nor a name (`Store.label_ended_iff`).
-/

namespace LineScript

namespace Utf8

/-- A place between two characters of a text, or at one of its ends, counted
in bytes. -/
def IsBoundary (t : Text) (n : Nat) : Prop := ∃ part, part <+: t ∧ size part = n

theorem isBoundary_size (part rest : Text) : IsBoundary (part ++ rest) (size part) :=
  ⟨part, List.prefix_append part rest, rfl⟩

theorem size_spaces (n : Nat) : size (List.replicate n ' ') = n := by
  rw [size_of_ascii, List.length_replicate]
  intro c mem
  rw [List.eq_of_mem_replicate mem]
  decide

theorem encode_spaces (n : Nat) :
    encode (List.replicate n ' ') = List.replicate n Slot.spaceByte := by
  rw [encode, List.flatMap_replicate]
  exact List.flatten_replicate_singleton

end Utf8

namespace Text

variable {row spaces : Nat} {t t' name after name' after' : Text} {found : Leading}

/-! ## Labels -/

/-- The parts of a text whose first character that is no space is a dot: the
spaces before it, the name behind it, and all from the next space on. -/
structure Labelled (t : Text) (spaces : Nat) (name after : Text) : Prop where
  parts : t = List.replicate spaces ' ' ++ '.' :: (name ++ after)
  name : ' ' ∉ name
  after : ∀ c ∈ after.head?, c = ' '

/-- The parts of a text that has no label. -/
structure Unlabelled (t : Text) (spaces : Nat) (rest : Text) : Prop where
  parts : t = List.replicate spaces ' ' ++ rest
  rest : ∀ c ∈ rest.head?, c ≠ ' ' ∧ c ≠ '.'

/-- The spaces at the front of a text, and what follows them. -/
theorem exists_spaces (t : Text) :
    ∃ spaces rest, t = List.replicate spaces ' ' ++ rest ∧ ∀ c ∈ rest.head?, c ≠ ' ' := by
  refine ⟨(t.takeWhile (· = ' ')).length, t.dropWhile (· = ' '), ?_, ?_⟩
  · have all : t.takeWhile (· = ' ') = List.replicate (t.takeWhile (· = ' ')).length ' ' := by
      refine List.eq_replicate_length.2 ?_
      intro c mem
      simpa using List.mem_takeWhile_imp mem
    rw [← all, List.takeWhile_append_dropWhile]
  · intro c mem
    simpa using Slot.head?_dropWhile mem

/-- **A text has a label or it has none.** -/
theorem labelled_or_unlabelled (t : Text) :
    (∃ spaces name after, t.Labelled spaces name after) ∨ ∃ spaces rest, t.Unlabelled spaces rest := by
  obtain ⟨spaces, rest, parts, first⟩ := t.exists_spaces
  by_cases mark : rest.head? = some '.'
  · obtain ⟨body, rfl⟩ := List.head?_eq_some_iff.1 mark
    refine .inl ⟨spaces, body.takeWhile (· ≠ ' '), body.dropWhile (· ≠ ' '), ?_, ?_, ?_⟩
    · rw [List.takeWhile_append_dropWhile]
      exact parts
    · intro mem
      simpa using List.mem_takeWhile_imp mem
    · intro c mem
      simpa using Slot.head?_dropWhile mem
  · refine .inr ⟨spaces, rest, parts, ?_⟩
    intro c mem
    refine ⟨first c mem, ?_⟩
    rintro rfl
    exact mark mem

/-- What follows the spaces. -/
theorem Labelled.dropWhile (h : t.Labelled spaces name after) :
    t.dropWhile (· = ' ') = '.' :: (name ++ after) := by
  have all : ∀ c ∈ List.replicate spaces ' ', decide (c = ' ') = true := by
    intro c mem
    simp [List.eq_of_mem_replicate mem]
  rw [h.parts, List.dropWhile_append_of_pos all, List.dropWhile_cons_of_neg (by decide)]

/-- A label begins and ends between characters, and so do the spaces behind it. -/
theorem Labelled.boundaries {gap : Nat} {rest : Text}
    (h : t.Labelled spaces name (List.replicate gap ' ' ++ rest)) :
    Utf8.IsBoundary t (spaces + 1) ∧ Utf8.IsBoundary t (spaces + 1 + Utf8.size name) ∧
      Utf8.IsBoundary t (spaces + 1 + Utf8.size name + gap) := by
  have dot : Utf8.size ['.'] = 1 := by decide
  have front : Utf8.size (List.replicate spaces ' ' ++ ['.']) = spaces + 1 := by
    rw [Utf8.size_append, Utf8.size_spaces, dot]
  have whole : t = List.replicate spaces ' ' ++ ['.'] ++ name ++ List.replicate gap ' ' ++ rest := by
    simp [h.parts]
  refine ⟨⟨_, ?_, front⟩, ⟨List.replicate spaces ' ' ++ ['.'] ++ name, ?_, ?_⟩,
    ⟨List.replicate spaces ' ' ++ ['.'] ++ name ++ List.replicate gap ' ', ?_, ?_⟩⟩
  · simp [whole]
  · simp [whole]
  · rw [Utf8.size_append, front]
  · simp [whole]
  · rw [Utf8.size_append, Utf8.size_append, front, Utf8.size_spaces]

/-! ## Ends of labels -/

/-- How the label of a text in a slot of `row` bytes is ended: what its name
and what follows it become. -/
inductive Ends (row : Nat) (t : Text) : (name after name' after' : Text) → Prop where
  /-- A space follows already. -/
  | ended {name after : Text} (h : after ≠ []) : Ends row t name after name after
  /-- There is room for a space. -/
  | appended {name : Text} (room : Utf8.size t + 1 < row) : Ends row t name [] name [' ']
  /-- A space takes the place of the last character of the name. -/
  | replaced {whole name : Text} {last : Char} (full : Utf8.size t + 1 = row)
      (parts : whole = name ++ [last]) : Ends row t whole [] name [' ']
  /-- There is neither room nor a name. -/
  | bare (full : Utf8.size t + 1 = row) : Ends row t [] [] [] []

/-- Nothing but a space is new. -/
theorem Ends.mem (h : Ends row t name after name' after') {c : Char} (mem : c ∈ name' ++ after') :
    c ∈ name ++ after ∨ c = ' ' := by
  cases h with
  | ended => exact .inl mem
  | appended => simpa using mem
  | replaced _ parts =>
    simp only [parts, List.mem_append, List.mem_singleton] at mem ⊢
    tauto
  | bare => exact .inl mem

/-- **The label is one still**, of what is left of its name. -/
theorem Ends.labelled (h : Ends row t name after name' after') (label : t.Labelled spaces name after) :
    Labelled (List.replicate spaces ' ' ++ '.' :: (name' ++ after')) spaces name' after' := by
  refine ⟨rfl, ?_, ?_⟩
  · have plain := label.name
    cases h with
    | ended | appended | bare => exact plain
    | replaced _ parts =>
      intro mem
      exact plain (parts ▸ List.mem_append_left _ mem)
  · cases h with
    | ended => exact label.after
    | appended | replaced => simp
    | bare => simp

/-- **A label is open at its end** in one text only. -/
theorem Ends.eq_nil_iff (h : Ends row t name after name' after') (label : t.Labelled spaces name after) :
    after' = [] ↔ t = List.replicate (row - 2) ' ' ++ ['.'] := by
  constructor
  · intro none
    cases h with
    | ended h => exact absurd none h
    | appended | replaced => cases none
    | bare full =>
      have size : Utf8.size t = spaces + 1 := by
        rw [label.parts, Utf8.size_append, Utf8.size_spaces]
        rfl
      have place : spaces = row - 2 := by omega
      rw [← place]
      exact label.parts
  · intro dot
    have size : Utf8.size t = row - 2 + 1 := by
      rw [dot, Utf8.size_append, Utf8.size_spaces]
      rfl
    have alone : Labelled t (row - 2) [] [] := ⟨dot, List.not_mem_nil, by simp⟩
    have same : name ++ after = [] := by
      have front := label.dropWhile.symm.trans alone.dropWhile
      simpa using front
    obtain ⟨rfl, rfl⟩ := List.append_eq_nil_iff.1 same
    cases h with
    | ended h => exact absurd rfl h
    | appended room => omega
    | replaced _ parts => simp at parts
    | bare => rfl

/-- What is found at the front of a text in a slot of `row` bytes, and the
text `t'` that it is afterwards. -/
structure Front (row : Nat) (t : Text) (found : Leading) (t' : Text) : Prop where
  /-- A text without a label stays as it is, and its first word is behind the spaces. -/
  unlabelled : ∀ spaces rest, t.Unlabelled spaces rest → found = { offset := spaces } ∧ t' = t
  /-- A label is ended. The span is that of the name as it stands then, and the
  first word is behind the spaces that follow it. -/
  labelled : ∀ spaces name after, t.Labelled spaces name after → ∃ name' gap rest,
    Ends row t name after name' (List.replicate gap ' ' ++ rest) ∧
    t'.Labelled spaces name' (List.replicate gap ' ' ++ rest) ∧ (∀ c ∈ rest.head?, c ≠ ' ') ∧
    found = { offset := spaces + 1 + Utf8.size name' + gap
              label := some (spaces + 1, spaces + 1 + Utf8.size name') }
  /-- All of these are places between characters. -/
  boundaries : ∀ n, n = found.offset ∨ (∃ stop, found.label = some (n, stop)) ∨
    (∃ start, found.label = some (start, n)) → Utf8.IsBoundary t' n

end Text

namespace Slot

variable {row spaces gap : Nat} {slot : Slot} {t name after rest : Text}

/-! ## From texts to bytes -/

/-- A clean slot is told by its text. -/
theorem Clean.eq_pad (h : slot.Clean row) : slot = pad row (Utf8.encode slot.text) := by
  obtain ⟨t, nul, -, rfl⟩ := h
  rw [text, content_pad row nul, Utf8.decode_encode]

theorem Clean.size_text (h : slot.Clean row) : Utf8.size slot.text + 1 ≤ row := by
  obtain ⟨t, nul, room, rfl⟩ := h
  rw [text, content_pad row nul, Utf8.decode_encode]
  exact room

theorem text_pad (row : Nat) (nul : '\x00' ∉ t) : (pad row (Utf8.encode t)).text = t := by
  rw [text, content_pad row nul, Utf8.decode_encode]

/-- A label and what stands around it, as bytes. -/
theorem encode_parts (spaces : Nat) (name after : Text) :
    Utf8.encode (List.replicate spaces ' ' ++ '.' :: (name ++ after)) =
      List.replicate spaces spaceByte ++ labelByte :: (Utf8.encode name ++ Utf8.encode after) := by
  rw [Utf8.encode_append, encode_label, Utf8.encode_append, Utf8.encode_spaces]

/-- The spaces at the front of a text, and what follows them, as bytes. -/
theorem span_encode_spaces (gap : Nat) (first : ∀ c ∈ rest.head?, c ≠ ' ') :
    (Utf8.encode (List.replicate gap ' ' ++ rest)).takeWhile (· = spaceByte) =
        List.replicate gap spaceByte ∧
      (Utf8.encode (List.replicate gap ' ' ++ rest)).dropWhile (· = spaceByte) =
        Utf8.encode rest := by
  have all : ∀ c ∈ List.replicate gap ' ', decide (c = ' ') = true := by
    intro c mem
    simp [List.eq_of_mem_replicate mem]
  have stop : rest.takeWhile (· = ' ') = [] ∧ rest.dropWhile (· = ' ') = rest := by
    cases rest with
    | nil => exact ⟨rfl, rfl⟩
    | cons c rest =>
      have differs : c ≠ ' ' := first c rfl
      simp [differs]
  obtain ⟨front, behind⟩ :=
    Utf8.span_eq_encode (a := ' ') (b := spaceByte) (by decide) rfl (List.replicate gap ' ' ++ rest)
  rw [front, behind, List.takeWhile_append_of_pos all, List.dropWhile_append_of_pos all, stop.1,
    stop.2, List.append_nil, Utf8.encode_spaces]
  exact ⟨rfl, rfl⟩

/-- The label of a text is that of its bytes. -/
theorem labelled_of_text (clean : slot.Clean row) (h : slot.text.Labelled spaces name after) :
    slot.Labelled (List.replicate spaces spaceByte) (Utf8.encode name) (Utf8.encode after) := by
  have space : ' '.toNat = spaceByte.toNat := rfl
  refine ⟨?_, ?_, ?_, ?_⟩
  · rw [← clean.encode_text, h.parts, encode_parts]
  · intro b mem
    exact List.eq_of_mem_replicate mem
  · rintro b mem rfl
    exact h.name ((Utf8.mem_encode_iff (by decide) space).1 mem)
  · intro b mem
    cases after with
    | nil => cases mem
    | cons c after =>
      obtain rfl : c = ' ' := h.after c rfl
      rw [← List.singleton_append, Utf8.encode_append, encode_space] at mem
      simpa using mem.symm

/-- **A label is followed by a space** inside the content, or by nothing. -/
theorem ended_iff (clean : slot.Clean row) (h : slot.text.Labelled spaces name after) :
    (slot[spaces + 1 + Utf8.size name]? = some spaceByte ∧
      spaces + 1 + Utf8.size name < slot.content.length) ↔ ¬ after = [] := by
  have front : (List.replicate spaces spaceByte ++ labelByte :: Utf8.encode name).length =
      spaces + 1 + Utf8.size name := by
    rw [List.length_append, List.length_replicate, List.length_cons, Utf8.size]
    omega
  have content : slot.content =
      List.replicate spaces spaceByte ++ labelByte :: Utf8.encode name ++ Utf8.encode after := by
    rw [← clean.encode_text, h.parts, encode_parts]
    simp
  constructor
  · rintro ⟨-, inside⟩ rfl
    rw [content, List.length_append, front] at inside
    exact absurd inside (by simp)
  · intro some
    obtain ⟨c, rest, rfl⟩ := List.exists_cons_of_ne_nil some
    obtain rfl : c = ' ' := h.after c rfl
    have bytes : Utf8.encode (' ' :: rest) = spaceByte :: Utf8.encode rest := by
      rw [← List.singleton_append, Utf8.encode_append, encode_space, List.singleton_append]
    have whole := clean.eq_pad
    rw [clean.encode_text, content, bytes, pad] at whole
    constructor
    · rw [whole, List.append_assoc, List.getElem?_append_right (by omega), front]
      simp
    · rw [content, bytes, List.length_append, front, List.length_cons]
      omega

/-! ## Looking past the front -/

/-- **Without a label** nothing changes. -/
theorem skipLeading_unlabelled (clean : slot.Clean row) (h : slot.text.Unlabelled spaces rest) :
    slot.skipLeading row = ({ offset := spaces }, slot) := by
  have first : ∀ c ∈ rest.head?, c ≠ ' ' := by
    intro c mem
    exact (h.rest c mem).1
  obtain ⟨front, behind⟩ := span_encode_spaces spaces first
  rw [← h.parts, clean.encode_text] at front behind
  have bare : slot.isLabelled = false := by
    rw [isLabelled, behind, decide_eq_false_iff_not]
    intro mark
    cases rest with
    | nil => cases mark
    | cons c rest =>
      obtain ⟨b, more, bytes, -⟩ := Utf8.encodeChar_eq_cons c
      rw [Utf8.encode_cons, bytes] at mark
      have same : b = labelByte := by simpa using mark
      have dot := (Utf8.eq_iff_of_mem_encodeChar (a := '.') (b := labelByte) (by decide) rfl
        (bytes ▸ List.mem_cons_self)).1 same
      exact (h.rest c rfl).2 dot
  rw [skipLeading_eq_of_unlabelled row bare, front, List.length_replicate]

/-- In a full slot the last character of a name makes room for the space. -/
theorem terminate_encode_concat (name : Text) (last : Char) :
    terminate false (Utf8.encode (name ++ [last])) = (Utf8.encode name, [spaceByte]) := by
  have named : ¬ (Utf8.encode (name ++ [last])).isEmpty = true := by
    rw [List.isEmpty_iff, Utf8.encode_eq_nil_iff]
    simp
  rw [terminate, if_neg Bool.false_ne_true, if_neg named, dropLastChar_encode]

/-- **With a label** it is ended, in one of four ways. -/
theorem exists_ends (clean : slot.Clean row) (h : slot.text.Labelled spaces name after) :
    ∃ name' gap rest, Text.Ends row slot.text name after name' (List.replicate gap ' ' ++ rest) ∧
      (∀ c ∈ rest.head?, c ≠ ' ') ∧
      slot.skipLeading row =
        ({ offset := spaces + 1 + Utf8.size name' + gap
           label := some (spaces + 1, spaces + 1 + Utf8.size name') },
          pad row (Utf8.encode (List.replicate spaces ' ' ++
            '.' :: (name' ++ (List.replicate gap ' ' ++ rest))))) := by
  have label := labelled_of_text clean h
  by_cases follows : after = []
  · subst follows
    have length : slot.content.length = Utf8.size slot.text := by
      rw [← clean.encode_text, Utf8.size]
    have look := label.skipLeading_open row
    simp only [length, List.length_replicate] at look
    by_cases room : Utf8.size slot.text + 1 < row
    · refine ⟨name, 1, [], .appended room, by simp, ?_⟩
      have ended : terminate true (Utf8.encode name) = (Utf8.encode name, [spaceByte]) := rfl
      rw [look, decide_eq_true room, ended, encode_parts, List.append_nil, Utf8.encode_spaces]
      rfl
    · have full : Utf8.size slot.text + 1 = row := by
        have := clean.size_text
        omega
      rw [decide_eq_false room] at look
      rcases List.eq_nil_or_concat name with rfl | ⟨init, last, rfl⟩
      · refine ⟨[], 0, [], .bare full, by simp, ?_⟩
        have ended : terminate false (Utf8.encode []) = ([], []) := rfl
        rw [look, ended, encode_parts]
        rfl
      · rw [List.concat_eq_append] at look ⊢
        refine ⟨init, 1, [], .replaced full rfl, by simp, ?_⟩
        rw [look, terminate_encode_concat, encode_parts, List.append_nil, Utf8.encode_spaces]
        rfl
  · obtain ⟨gap, rest, rfl, first⟩ := after.exists_spaces
    refine ⟨name, gap, rest, .ended follows, first, ?_⟩
    have some : Utf8.encode (List.replicate gap ' ' ++ rest) ≠ [] := by
      rw [Ne, Utf8.encode_eq_nil_iff]
      exact follows
    rw [label.skipLeading_ended row some, (span_encode_spaces gap first).1, ← h.parts,
      ← clean.eq_pad]
    simp only [List.length_replicate, Utf8.size]

/-- What a label and its name are made of holds no NUL, if the text does not. -/
theorem nul_notMem_ended {name' after' : Text} (clean : slot.Clean row)
    (h : slot.text.Labelled spaces name after) (ends : Text.Ends row slot.text name after name' after') :
    '\x00' ∉ List.replicate spaces ' ' ++ '.' :: (name' ++ after') := by
  have nul : '\x00' ∉ slot.text := by
    obtain ⟨t, nul, -, rfl⟩ := clean
    rw [text_pad row nul]
    exact nul
  rw [h.parts] at nul
  intro mem
  rw [List.mem_append, List.mem_cons] at nul mem
  rcases mem with spaces | dot | new
  · exact nul (.inl spaces)
  · exact absurd dot (by decide)
  · rcases ends.mem new with old | space
    · exact nul (.inr (.inr old))
    · exact absurd space (by decide)

/-- **The front of a slot**, told by its text before and after. -/
theorem front_skipLeading (clean : slot.Clean row) :
    Text.Front row slot.text (slot.skipLeading row).1 (slot.skipLeading row).2.text := by
  have labelled : ∀ spaces name after, slot.text.Labelled spaces name after → ∃ name' gap rest,
      Text.Ends row slot.text name after name' (List.replicate gap ' ' ++ rest) ∧
      (slot.skipLeading row).2.text.Labelled spaces name' (List.replicate gap ' ' ++ rest) ∧
      (∀ c ∈ rest.head?, c ≠ ' ') ∧
      (slot.skipLeading row).1 =
        { offset := spaces + 1 + Utf8.size name' + gap
          label := some (spaces + 1, spaces + 1 + Utf8.size name') } := by
    intro spaces name after label
    obtain ⟨name', gap, rest, ends, first, look⟩ := exists_ends clean label
    refine ⟨name', gap, rest, ends, ?_, first, by rw [look]⟩
    rw [look, text_pad row (nul_notMem_ended clean label ends)]
    exact ends.labelled label
  refine ⟨?_, labelled, ?_⟩
  · intro spaces rest bare
    rw [skipLeading_unlabelled clean bare]
    exact ⟨rfl, rfl⟩
  · rcases slot.text.labelled_or_unlabelled with ⟨spaces, name, after, label⟩ | ⟨spaces, rest, bare⟩
    · obtain ⟨name', gap, rest, -, left, -, found⟩ := labelled spaces name after label
      obtain ⟨start, stop, offset⟩ := left.boundaries
      rw [found]
      rintro n (same | ⟨_, same⟩ | ⟨_, same⟩)
      · rw [same]
        exact offset
      · obtain ⟨rfl, -⟩ := Prod.mk.inj (Option.some.inj same)
        exact start
      · obtain ⟨-, rfl⟩ := Prod.mk.inj (Option.some.inj same)
        exact stop
    · rw [skipLeading_unlabelled clean bare]
      rintro n (same | ⟨_, none⟩ | ⟨_, none⟩)
      · have place := Utf8.isBoundary_size (List.replicate spaces ' ') rest
        rw [← bare.parts, Utf8.size_spaces] at place
        rw [same]
        exact place
      · cases none
      · cases none

end Slot

namespace Store

variable {s s' : Store} {index start stop : Nat} {slot : Slot} {found : Leading}

/-! ## The front of a line -/

/-- The line that is looked at, -/
theorem slot_terminateLabel_self (there : s.slot index = .ok slot) :
    (s.terminateLabel index).slot index = .ok (slot.skipLeading s.row).2 := by
  rw [slot_eq_ok_iff] at there ⊢
  rw [getElem?_terminateLabel, if_pos rfl, there, Option.map_some]

/-- and the others. -/
theorem slot_terminateLabel_of_ne {line : Nat} (other : line ≠ index) :
    (s.terminateLabel index).slot line = s.slot line := by
  rw [Store.slot, getElem?_terminateLabel, if_neg other, Store.slot]

/-- What looking past the front of a line gives, if there is such a line. -/
theorem skipLeading_of_slot (there : s.slot index = .ok slot) :
    s.skipLeading index = (.ok (slot.skipLeading s.row).1, s.terminateLabel index) := by
  have held := slot_eq_ok_iff.1 there
  have inside : index < s.size := (Array.getElem?_eq_some_iff.1 held).1
  rw [skipLeading, if_pos inside, leading, held]

theorem eq_of_skipLeading (there : s.slot index = .ok slot)
    (look : s.skipLeading index = (.ok found, s')) :
    found = (slot.skipLeading s.row).1 ∧ s' = s.terminateLabel index := by
  obtain ⟨same, left⟩ := Prod.mk.inj ((skipLeading_of_slot there).symm.trans look)
  exact ⟨(Except.ok.inj same).symm, left.symm⟩

/-- **A second look** finds the same and changes nothing. -/
theorem skipLeading_terminateLabel (there : s.slot index = .ok slot) :
    (s.terminateLabel index).skipLeading index =
      (.ok (slot.skipLeading s.row).1, s.terminateLabel index) := by
  have row : (s.terminateLabel index).row = s.row := (s.terminateLabel_shape index).row
  have held := slot_terminateLabel_self there
  have again := slot.skipLeading_skipLeading s.row
  have same : (s.terminateLabel index).terminateLabel index = s.terminateLabel index := by
    refine terminateLabel_of_same ?_
    intro slot' there'
    rw [slot_eq_ok_iff.1 held, Option.some.injEq] at there'
    rw [← there', row, again]
  rw [skipLeading_of_slot held, row, again, same]

/-- What is found at the front of a line, and what becomes of the line: a text
and zeros behind it. No other line changes, and a second look finds the same
and changes nothing. -/
theorem skipLeading_front (there : s.slot index = .ok slot) (clean : slot.Clean s.row) :
    ∃ found s', s.skipLeading index = (.ok found, s') ∧
      Text.Front s.row slot.text found (s'.line index) ∧
      s'.slot index = .ok (Slot.pad s.row (Utf8.encode (s'.line index))) ∧
      (∀ line, line ≠ index → s'.slot line = s.slot line) ∧ s'.row = s.row ∧
      s'.skipLeading index = (.ok found, s') := by
  have held := slot_terminateLabel_self there
  have text := line_of_slot held
  refine ⟨_, _, skipLeading_of_slot there, ?_, ?_, ?_, (s.terminateLabel_shape index).row,
    skipLeading_terminateLabel there⟩
  · rw [text]
    exact Slot.front_skipLeading clean
  · rw [text, held, ← (Slot.clean_skipLeading clean).eq_pad]
  · intro line other
    exact slot_terminateLabel_of_ne other

/-- The last character of a name of two bytes makes room for a space. -/
theorem skipLeading_front_replaced :
    ∃ (s : Store) (slot : Slot) (found : Leading) (s' : Store),
    s.slot 1 = .ok slot ∧ slot.Clean s.row ∧ slot.text = ".abcdé".toList ∧
    s.skipLeading 1 = (.ok found, s') ∧ Text.Front s.row slot.text found (s'.line 1) ∧
    s'.line 1 = ".abcd ".toList ∧ found = { offset := 6, label := some (1, 5) } ∧
    s'.skipLeading 1 = (.ok found, s') := by
  obtain ⟨s, made⟩ : ∃ s, (new 4 8).applyAll [.write 1 ".abcdé".toList] = s := ⟨_, rfl⟩
  have store : s.Clean := (clean_new 4 (by decide)).evolves ⟨_, made⟩
  obtain ⟨slot, held⟩ := s.exists_slot (show 1 < s.size by rw [← made]; decide)
  have there := slot_eq_ok_iff.2 held
  have clean := store.getElem held
  obtain ⟨found, s', look, front, -, -, -, again⟩ := skipLeading_front there clean
  obtain ⟨rfl, rfl⟩ := eq_of_skipLeading there look
  have text : slot.text = ".abcdé".toList := by
    rw [← line_of_slot there, ← made]
    decide +kernel
  have result : (s.terminateLabel 1).line 1 = ".abcd ".toList ∧
      s.leading 1 = { offset := 6, label := some (1, 5) } := by
    rw [← made]
    decide +kernel
  have found : s.leading 1 = (slot.skipLeading s.row).1 := by
    rw [leading, held]
  exact ⟨s, slot, _, _, there, clean, text, look, front, result.1, found ▸ result.2, again⟩

/-! ## The end of a label -/

/-- What stands where the span of a label ends: a space inside the content of
the line, unless the label is a bare dot in the last place of its slot. -/
theorem label_ended_iff (there : s.slot index = .ok slot) (clean : slot.Clean s.row)
    (look : s.skipLeading index = (.ok found, s')) (label : found.label = some (start, stop)) :
    ∃ slot', s'.slot index = .ok slot' ∧
      ((slot'[stop]? = some Slot.spaceByte ∧ stop < slot'.content.length) ↔
        slot.text ≠ List.replicate (s.row - 2) ' ' ++ ['.']) := by
  obtain ⟨rfl, rfl⟩ := eq_of_skipLeading there look
  have front := Slot.front_skipLeading clean
  have clean' := Slot.clean_skipLeading clean
  refine ⟨_, slot_terminateLabel_self there, ?_⟩
  rcases slot.text.labelled_or_unlabelled with ⟨spaces, name, after, parts⟩ | ⟨spaces, rest, bare⟩
  · obtain ⟨name', gap, rest, ends, left, -, found⟩ := front.labelled spaces name after parts
    rw [found] at label
    obtain ⟨-, rfl⟩ := Prod.mk.inj (Option.some.inj label)
    rw [Ne, ← ends.eq_nil_iff parts]
    exact Slot.ended_iff clean' left
  · rw [(front.unlabelled spaces rest bare).1] at label
    cases label

/-- A name of one character goes whole, and the space that ends it is the last
byte before the closing zero. -/
theorem label_ended_iff_full :
    ∃ (s : Store) (slot slot' : Slot) (found : Leading) (s' : Store),
      s.slot 1 = .ok slot ∧ slot.Clean s.row ∧ slot.text = "     .a".toList ∧
      s.skipLeading 1 = (.ok found, s') ∧ found.label = some (6, 6) ∧ s'.slot 1 = .ok slot' ∧
      slot'[6]? = some Slot.spaceByte ∧ 6 < slot'.content.length := by
  obtain ⟨s, made⟩ : ∃ s, (new 4 8).applyAll [.write 1 "     .a".toList] = s := ⟨_, rfl⟩
  have store : s.Clean := (clean_new 4 (by decide)).evolves ⟨_, made⟩
  have row : s.row = 8 := by
    rw [← made]
    rfl
  obtain ⟨slot, held⟩ := s.exists_slot (show 1 < s.size by rw [← made]; decide)
  have there := slot_eq_ok_iff.2 held
  have clean := store.getElem held
  have text : slot.text = "     .a".toList := by
    rw [← line_of_slot there, ← made]
    decide +kernel
  have label : (slot.skipLeading s.row).1.label = some (6, 6) := by
    have found : (s.leading 1).label = some (6, 6) := by
      rw [← made]
      decide +kernel
    rwa [leading, held] at found
  obtain ⟨slot', left, ended⟩ := label_ended_iff there clean (skipLeading_of_slot there) label
  have named : slot.text ≠ List.replicate (s.row - 2) ' ' ++ ['.'] := by
    rw [text, row]
    decide
  obtain ⟨space, inside⟩ := ended.2 named
  exact ⟨s, slot, slot', _, _, there, clean, text, skipLeading_of_slot there, label, left, space,
    inside⟩

/-- A label that is a bare dot in the last place of its slot is not ended: the
closing zero follows its span. -/
theorem label_not_ended :
    ∃ (s : Store) (found : Leading) (s' : Store) (slot' : Slot),
      s.Clean ∧ 8 ≤ s.row ∧ s.line 1 = "      .".toList ∧
      s.skipLeading 1 = (.ok found, s') ∧ found.label = some (7, 7) ∧
      s'.slot 1 = .ok slot' ∧ slot'[7]? = some 0 := by
  obtain ⟨s, made⟩ : ∃ s, (new 4 8).applyAll [.write 1 "      .".toList] = s := ⟨_, rfl⟩
  have store : s.Clean := (clean_new 4 (by decide)).evolves ⟨_, made⟩
  obtain ⟨slot, held⟩ := s.exists_slot (show 1 < s.size by rw [← made]; decide)
  have there := slot_eq_ok_iff.2 held
  have found : s.row = 8 ∧ s.line 1 = "      .".toList ∧ (s.leading 1).label = some (7, 7) ∧
      (s.terminateLabel 1).slots[1]?.bind (·[7]?) = some 0 := by
    rw [← made]
    decide +kernel
  obtain ⟨row, text, label, zero⟩ := found
  rw [leading, held] at label
  have left := slot_terminateLabel_self there
  rw [slot_eq_ok_iff.1 left, Option.bind_some] at zero
  exact ⟨s, _, _, _, store, by omega, text, skipLeading_of_slot there, label, left, zero⟩

end Store

end LineScript
