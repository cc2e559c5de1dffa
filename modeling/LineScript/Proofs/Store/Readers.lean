import LineScript.Operand
import LineScript.Proofs.Number.Digits
import LineScript.Proofs.Store.Front
import LineScript.Proofs.Text.Words
import LineScript.Store.Listing
/-!
# The readers of a label

Three things read the label of a line: looking past its front, which ends the
label; a pointer to the line, which reads what stands behind the label; and the
listing, which sets the label in bold type. They agree on every line, whether
its label is ended or not (`Store.readers_agree`): a pointer reads the text from
the offset that was found on, before the label is ended and afterwards, and what
is bold is the label that was found, dot included.

How a terminal is told to change its type is not said here. All that is asked of
a style is that it paints between control sequences, and that the one for bold
type is not one of the others (`Style.Marks`). They are all that a decorated
listing adds to a plain one (`Listing.plain_decorate`).
-/

namespace LineScript

namespace Text

variable {row spaces gap : Nat} {t name after name' after' rest : Text}

/-! ## What stands behind a label -/

theorem Unlabelled.dropSpaces (h : t.Unlabelled spaces rest) : t.dropSpaces = rest := by
  rw [h.parts]
  exact dropSpaces_spaces spaces fun c mem => (h.rest c mem).1

/-- **A pointer reads what follows the label**, -/
theorem Labelled.afterLabel (h : t.Labelled spaces name after) : Operand.afterLabel t = after := by
  rw [Operand.afterLabel, Text.dropSpaces, h.dropWhile, List.head?_cons, if_pos rfl,
    List.dropWhile_cons_of_pos (by decide), (span_word h.name h.after).2]

/-- or all behind the spaces if there is none. -/
theorem Unlabelled.afterLabel (h : t.Unlabelled spaces rest) : Operand.afterLabel t = rest := by
  have bare : ¬ rest.head? = some '.' := fun mark => (h.rest '.' mark).2 rfl
  rw [Operand.afterLabel, h.dropSpaces, if_neg bare]

/-- To end a label changes nothing behind it but spaces. -/
theorem Ends.dropSpaces (h : Ends row t name after name' after') :
    after'.dropSpaces = after.dropSpaces := by
  cases h with
  | ended => rfl
  | appended | replaced => rfl
  | bare => rfl

/-- **What is behind the front** is what a pointer reads, up to spaces. -/
theorem Front.afterLabel {found : Leading} {t' : Text} (h : Front row t found t') :
    ∃ front, t' = front ++ (Operand.afterLabel t).dropSpaces ∧ Utf8.size front = found.offset ∧
      (Operand.afterLabel t').dropSpaces = (Operand.afterLabel t).dropSpaces := by
  rcases t.labelled_or_unlabelled with ⟨spaces, name, after, label⟩ | ⟨spaces, rest, bare⟩
  · obtain ⟨name', gap, rest, ends, left, first, rfl⟩ := h.labelled spaces name after label
    have behind : after.dropSpaces = rest := by
      rw [← ends.dropSpaces, dropSpaces_spaces gap first]
    rw [label.afterLabel, left.afterLabel, behind, dropSpaces_spaces gap first]
    refine ⟨List.replicate spaces ' ' ++ '.' :: (name' ++ List.replicate gap ' '), ?_, ?_, rfl⟩
    · simp [left.parts]
    · have dot : Utf8.size ['.'] = 1 := by decide
      rw [← List.singleton_append, Utf8.size_append, Utf8.size_append, Utf8.size_append,
        Utf8.size_spaces, Utf8.size_spaces, dot]
      dsimp only
      omega
  · obtain ⟨rfl, rfl⟩ := h.unlabelled spaces rest bare
    have same : rest.dropSpaces = rest := dropSpaces_spaces 0 fun c mem => (bare.rest c mem).1
    rw [bare.afterLabel, same]
    exact ⟨List.replicate spaces ' ', bare.parts, Utf8.size_spaces spaces, rfl⟩

end Text

namespace Slot

variable {row : Nat} {slot : Slot} {front rest : Text}

/-- The text of a slot from a place between two of its characters on. -/
theorem Clean.textFrom (clean : slot.Clean row) (parts : slot.text = front ++ rest) :
    slot.textFrom (Utf8.size front) = rest := by
  have bytes : slot.content = Utf8.encode front ++ Utf8.encode rest := by
    rw [← clean.encode_text, parts, Utf8.encode_append]
  rw [Slot.textFrom, bytes, List.drop_left' (by rfl), Utf8.decode_encode]

/-- **From the offset on** a slot reads as a pointer reads it. -/
theorem textFrom_skipLeading (clean : slot.Clean row) :
    (slot.skipLeading row).2.textFrom (slot.skipLeading row).1.offset =
        (Operand.afterLabel slot.text).dropSpaces ∧
      (Operand.afterLabel (slot.skipLeading row).2.text).dropSpaces =
        (Operand.afterLabel slot.text).dropSpaces := by
  obtain ⟨front, parts, offset, again⟩ := (front_skipLeading clean).afterLabel
  refine ⟨?_, again⟩
  rw [← offset]
  exact (clean_skipLeading clean).textFrom parts

end Slot

/-! ## Marks -/

namespace Style

/-- A control sequence that sets the type: numbers, with semicolons between them. -/
def IsMark (mark : Text) : Prop :=
  ∃ codes : Text, (∀ c ∈ codes, c.isDigit = true ∨ c = ';') ∧
    mark = '\x1b' :: '[' :: (codes ++ ['m'])

/-- A style that paints between marks: a number after one for dim type and a
label after one for bold type, and both before one that ends the type. -/
structure Marks (style : Style) (dim bold off : Text) : Prop where
  dim_mark : IsMark dim
  bold_mark : IsMark bold
  off_mark : IsMark off
  bold_ne_dim : bold ≠ dim
  bold_ne_off : bold ≠ off
  number : ∀ t, style.number t = dim ++ (t ++ off)
  label : ∀ t, style.label t = bold ++ (t ++ off)

theorem marks_ansi :
    ansi.Marks "\x1b[2m".toList "\x1b[1m".toList "\x1b[0m".toList where
  dim_mark := ⟨['2'], by simp, rfl⟩
  bold_mark := ⟨['1'], by simp, rfl⟩
  off_mark := ⟨['0'], by simp, rfl⟩
  bold_ne_dim := by decide
  bold_ne_off := by decide
  number _ := List.append_assoc _ _ _
  label _ := List.append_assoc _ _ _

end Style

namespace Text

variable {row : Nat} {t t' : Text} {c : Char} {found : Leading}

/-- The text without its control sequences, each of which goes from an escape
character to the next `m`; `within` says whether one has begun. -/
def plainFrom : (within : Bool) → Text → Text
  | _, [] => []
  | true, c :: t => plainFrom (c ≠ 'm') t
  | false, c :: t => if c = '\x1b' then plainFrom true t else c :: plainFrom false t

/-- The text without its control sequences. -/
def plain (t : Text) : Text := plainFrom false t

theorem plain_cons_of_ne (other : c ≠ '\x1b') (t : Text) : plain (c :: t) = c :: plain t :=
  if_neg other

/-- A text without the escape character holds no control sequence. -/
theorem plain_append (without : '\x1b' ∉ t) (rest : Text) : plain (t ++ rest) = t ++ plain rest := by
  induction t with
  | nil => rfl
  | cons c t ih =>
    rw [List.mem_cons, not_or] at without
    rw [List.cons_append, plain_cons_of_ne (Ne.symm without.1), ih without.2, List.cons_append]

/-- The numbers of a control sequence are passed over, up to its end. -/
theorem plainFrom_codes {codes : Text} (numbers : ∀ c ∈ codes, c.isDigit = true ∨ c = ';')
    (rest : Text) : plainFrom true (codes ++ 'm' :: rest) = plain rest := by
  induction codes with
  | nil => rfl
  | cons c codes ih =>
    obtain ⟨first, others⟩ := List.forall_mem_cons.1 numbers
    have goes : (decide (c ≠ 'm')) = true := by
      refine decide_eq_true ?_
      rintro rfl
      exact absurd first (by decide)
    rw [List.cons_append, plainFrom, goes, ih others]

/-- **A mark is left out.** -/
theorem plain_mark {mark : Text} (h : Style.IsMark mark) (rest : Text) :
    plain (mark ++ rest) = plain rest := by
  obtain ⟨codes, numbers, rfl⟩ := h
  have parts : '\x1b' :: '[' :: (codes ++ ['m']) ++ rest =
      '\x1b' :: '[' :: (codes ++ 'm' :: rest) := by simp
  rw [parts]
  exact plainFrom_codes numbers rest

/-- What is painted is all that is left. -/
theorem plain_painted {on off : Text} (begins : Style.IsMark on) (ends : Style.IsMark off)
    (without : '\x1b' ∉ t) (rest : Text) : plain (on ++ (t ++ off) ++ rest) = t ++ plain rest := by
  rw [List.append_assoc, List.append_assoc, plain_mark begins, plain_append without,
    plain_mark ends]

/-! ## Decoration -/

/-- A text with marks around the label that was found, dot included, and none
elsewhere; the span of a label is that of its name. -/
inductive Painted (on off t : Text) : (label : Option (Nat × Nat)) → Text → Prop where
  | bare : Painted on off t none t
  | label {front name rest : Text} (parts : t = front ++ '.' :: (name ++ rest)) :
    Painted on off t (some (Utf8.size front + 1, Utf8.size front + 1 + Utf8.size name))
      (front ++ (on ++ ('.' :: name ++ off)) ++ rest)

variable {style : Style} {dim bold off : Text}

/-- A label is set in bold type, dot included, -/
theorem Labelled.decorateLabel {spaces : Nat} {name after : Text}
    (h : t.Labelled spaces name after) (style : Style) : Listing.decorateLabel style t =
      List.replicate spaces ' ' ++ style.label ('.' :: name) ++ after := by
  have plain : ' ' ∉ '.' :: name := by simp [h.name]
  obtain ⟨label, behind⟩ := span_word plain h.after
  have front : t.takeWhile (· = ' ') = List.replicate spaces ' ' := by
    rw [h.parts, List.takeWhile_append_of_pos (forall_mem_spaces spaces),
      List.takeWhile_cons_of_neg (by decide), List.append_nil]
  rw [Listing.decorateLabel, Text.dropSpaces, h.dropWhile, List.head?_cons, if_pos rfl, front,
    ← List.cons_append, label, behind]

/-- and nothing is if there is none. -/
theorem Unlabelled.decorateLabel {spaces : Nat} {rest : Text} (h : t.Unlabelled spaces rest)
    (style : Style) : Listing.decorateLabel style t = t := by
  have bare : ¬ rest.head? = some '.' := fun mark => (h.rest '.' mark).2 rfl
  rw [Listing.decorateLabel, h.dropSpaces]
  exact if_neg bare

/-- **What is bold is the label that was found.** -/
theorem Front.painted (h : Front row t found t') (marks : style.Marks dim bold off) :
    Painted bold off t' found.label (Listing.decorateLabel style t') := by
  rcases t.labelled_or_unlabelled with ⟨spaces, name, after, label⟩ | ⟨spaces, rest, bare⟩
  · obtain ⟨name', gap, rest, -, left, -, rfl⟩ := h.labelled spaces name after label
    have span : Painted bold off _ _ _ := .label left.parts
    rw [Utf8.size_spaces] at span
    rw [left.decorateLabel, marks.label]
    exact span
  · obtain ⟨rfl, rfl⟩ := h.unlabelled spaces rest bare
    rw [bare.decorateLabel]
    exact .bare

/-- Marks are all that decoration adds to a line. -/
theorem plain_decorateLabel (marks : style.Marks dim bold off) (without : '\x1b' ∉ t)
    (rest : Text) : plain (Listing.decorateLabel style t ++ rest) = t ++ plain rest := by
  rcases t.labelled_or_unlabelled with ⟨spaces, name, after, label⟩ | ⟨spaces, other, bare⟩
  · have parts := label.parts
    rw [← List.cons_append] at parts
    rw [parts, List.mem_append, List.mem_append, not_or, not_or] at without
    obtain ⟨front, named, behind⟩ := without
    rw [label.decorateLabel, marks.label, List.append_assoc, List.append_assoc, plain_append front,
      plain_painted marks.bold_mark marks.off_mark named, plain_append behind, parts,
      List.append_assoc, List.append_assoc]
  · rw [bare.decorateLabel, plain_append without]

end Text

namespace Listing

variable {l : Listing} {style : Style} {dim bold off : Text}

theorem escape_notMem_number (n : Nat) : '\x1b' ∉ number n := by
  intro mem
  rcases List.mem_append.1 mem with space | digit
  · exact absurd (List.eq_of_mem_replicate space) (by decide)
  · exact absurd (Numeral.digits_toDigits (by decide) (by decide) n '\x1b' digit) (by decide)

theorem decorate_cons (style : Style) (n : Nat) (t : Text) (lines : List (Nat × Text)) :
    decorate ⟨(n, t) :: lines⟩ style =
      style.number (number n) ++ ' ' :: (decorateLabel style t ++ '\n' :: decorate ⟨lines⟩ style) := by
  simp [decorate]

theorem render_cons (n : Nat) (t : Text) (lines : List (Nat × Text)) :
    render ⟨(n, t) :: lines⟩ = number n ++ ' ' :: (t ++ '\n' :: render ⟨lines⟩) := by
  simp [render]

/-- **Without its marks a decorated listing is the plain one.** -/
theorem plain_decorate (marks : style.Marks dim bold off)
    (without : ∀ line ∈ l.lines, '\x1b' ∉ line.2) : (l.decorate style).plain = l.render := by
  obtain ⟨lines⟩ := l
  induction lines with
  | nil => rfl
  | cons line lines ih =>
    obtain ⟨first, others⟩ := List.forall_mem_cons.1 without
    obtain ⟨n, t⟩ := line
    rw [decorate_cons, render_cons, marks.number,
      Text.plain_painted marks.dim_mark marks.off_mark (escape_notMem_number n),
      Text.plain_cons_of_ne (by decide), Text.plain_decorateLabel marks first,
      Text.plain_cons_of_ne (by decide), ih others]

/-- The lines of a listing are decorated one after another. -/
theorem decorate_split (style : Style) (above below : List (Nat × Text)) (n : Nat) (t : Text) :
    decorate ⟨above ++ (n, t) :: below⟩ style =
      decorate ⟨above⟩ style ++ (style.number (number n) ++ ' ' :: decorateLabel style t ++ ['\n']) ++
        decorate ⟨below⟩ style := by
  rw [decorate, List.flatMap_append, List.flatMap_cons, ← List.append_assoc]
  rfl

end Listing

namespace Store

variable {s s' : Store} {index : Nat} {slot : Slot} {style : Style} {dim bold off : Text}

/-- A line that is not empty is listed, unless it is the input line. -/
theorem mem_listing (inside : index < s.inputSlot) (some : s.line index ≠ []) :
    (index, s.line index) ∈ s.listing.lines := by
  refine List.mem_filterMap.2 ⟨index, List.mem_range.2 inside, ?_⟩
  rw [if_neg (by simpa using some)]

/-- A number is read without the spaces before it. -/
theorem toBits_dropSpaces (t : Text) : Numeral.toBits t.dropSpaces = Numeral.toBits t := by
  have spaces : (t.takeWhile (· = ' ')).filter (fun c => c ≠ ' ' ∧ c ≠ ',') = [] := by
    rw [List.filter_eq_nil_iff]
    intro c mem
    have space : c = ' ' := by simpa using List.mem_takeWhile_imp mem
    simp [space]
  have same : Numeral.ofText t.dropSpaces = Numeral.ofText t := by
    have whole : t.filter (fun c => c ≠ ' ' ∧ c ≠ ',') =
        t.dropSpaces.filter (fun c => c ≠ ' ' ∧ c ≠ ',') := by
      conv => lhs; rw [← List.takeWhile_append_dropWhile (p := (· = ' ')) (l := t)]
      rw [List.filter_append, spaces, List.nil_append, Text.dropSpaces]
    rw [Numeral.ofText, ← whole, Numeral.ofText]
  rw [Numeral.toBits, same, Numeral.toBits]

/-! ## Agreement -/

/-- All that read the label of a line agree on it, whether or not the label is
ended before they do. From the offset that is found at its front on, the line
reads as a pointer to it reads what stands behind the label, and as one that
comes later does. In the listing, whatever its style, the label that was found
is bold, dot included, and nothing else is; and without the marks of the types
the decorated listing is the plain one. -/
theorem readers_agree (there : s.slot index = .ok slot) (clean : slot.Clean s.row)
    (marks : style.Marks dim bold off) :
    ∃ found s', s.skipLeading index = (.ok found, s') ∧
      (Operand.afterLabel (s.line index)).dropSpaces = s'.textFrom index found.offset ∧
      (Operand.afterLabel (s'.line index)).dropSpaces = s'.textFrom index found.offset ∧
      Operand.pointer s index = Operand.pointer s' index ∧
      (index < s'.inputSlot → s'.line index ≠ [] → ∃ above below painted,
        s'.listing.lines = above ++ (index, s'.line index) :: below ∧
        Text.Painted bold off (s'.line index) found.label painted ∧
        s'.listing.decorate style = Listing.decorate ⟨above⟩ style ++
          (dim ++ (Listing.number index ++ off) ++ ' ' :: painted ++ ['\n']) ++
          Listing.decorate ⟨below⟩ style) ∧
      ((∀ line ∈ s'.listing.lines, '\x1b' ∉ line.2) →
        (s'.listing.decorate style).plain = s'.listing.render) := by
  have held := slot_terminateLabel_self there
  have before := line_of_slot there
  have after := line_of_slot held
  have from_ : (s.terminateLabel index).textFrom index (slot.skipLeading s.row).1.offset =
      (slot.skipLeading s.row).2.textFrom (slot.skipLeading s.row).1.offset := by
    rw [Store.textFrom, slot_eq_ok_iff.1 held]
    rfl
  obtain ⟨now, again⟩ := Slot.textFrom_skipLeading clean
  refine ⟨_, _, skipLeading_of_slot there, ?_, ?_, ?_, ?_,
    Listing.plain_decorate marks⟩
  · rw [from_, now, before]
  · rw [from_, now, after, again]
  · rw [Operand.pointer, Operand.pointer, before, after, ← toBits_dropSpaces, ← again,
      toBits_dropSpaces]
  · intro inside some
    obtain ⟨above, below, lines⟩ := List.append_of_mem (mem_listing inside some)
    refine ⟨above, below, Listing.decorateLabel style (slot.skipLeading s.row).2.text, lines, ?_, ?_⟩
    · rw [after]
      exact (Slot.front_skipLeading clean).painted marks
    · have whole : (s.terminateLabel index).listing =
          ⟨above ++ (index, (s.terminateLabel index).line index) :: below⟩ := by rw [← lines]
      rw [whole, Listing.decorate_split, after, marks.number]

/-- A label that fills its slot is read before its last character has made room
for a space. -/
theorem readers_agree_full : ∃ (s : Store) (slot : Slot) (found : Leading) (s' : Store),
    s.slot 1 = .ok slot ∧ slot.Clean s.row ∧ slot.text = ".abcdé".toList ∧
    s.skipLeading 1 = (.ok found, s') ∧ s'.line 1 = ".abcd ".toList ∧
    (Operand.afterLabel (s.line 1)).dropSpaces = s'.textFrom 1 found.offset ∧
    (∃ above below painted, s'.listing.lines = above ++ (1, s'.line 1) :: below ∧
      Text.Painted "\x1b[1m".toList "\x1b[0m".toList (s'.line 1) found.label painted ∧
      s'.listing.decorate Style.ansi = Listing.decorate ⟨above⟩ Style.ansi ++
        ("\x1b[2m".toList ++ (Listing.number 1 ++ "\x1b[0m".toList) ++ ' ' :: painted ++ ['\n']) ++
        Listing.decorate ⟨below⟩ Style.ansi) ∧
    (s'.listing.decorate Style.ansi).plain = s'.listing.render ∧
    s'.listing.render = "  1 .abcd \n  2 a\n".toList ∧
    s'.listing.decorate Style.ansi =
      "\x1b[2m  1\x1b[0m \x1b[1m.abcd\x1b[0m \n\x1b[2m  2\x1b[0m a\n".toList := by
  obtain ⟨s, made⟩ : ∃ s, (new 4 8).applyAll [.write 1 ".abcdé".toList, .write 2 "a".toList] = s :=
    ⟨_, rfl⟩
  have store : s.Clean := (clean_new 4 (by decide)).evolves ⟨_, made⟩
  obtain ⟨slot, held⟩ := s.exists_slot (show 1 < s.size by rw [← made]; decide)
  have there := slot_eq_ok_iff.2 held
  have clean := store.getElem held
  have text : slot.text = ".abcdé".toList := by
    rw [← line_of_slot there, ← made]
    decide +kernel
  obtain ⟨found, s', look, pointer, -, -, listed, plain⟩ :=
    readers_agree there clean Style.marks_ansi
  obtain ⟨rfl, rfl⟩ := eq_of_skipLeading there look
  have after : (s.terminateLabel 1).line 1 = ".abcd ".toList ∧
      (s.terminateLabel 1).listing.lines = [(1, ".abcd ".toList), (2, "a".toList)] ∧
      1 < (s.terminateLabel 1).inputSlot := by
    rw [← made]
    decide +kernel
  obtain ⟨line, lines, inside⟩ := after
  refine ⟨s, slot, _, _, there, clean, text, look, line, pointer, listed inside ?_, plain ?_, ?_, ?_⟩
  · rw [line]
    decide
  · rw [lines]
    decide
  · rw [Listing.render, lines]
    decide
  · rw [Listing.decorate, lines]
    decide

end Store

end LineScript
