import LineScript.Proofs.Machine.Instruction
import LineScript.Proofs.Machine.Lines
import LineScript.Proofs.Store.Readers
/-!
# Decoding

A line is decoded in passes over one text: its label is looked past and ended,
the keyword is cut off, an operator is taken out of what is left, and a number
of arguments is kept. What comes of it depends on the words of the line alone,
of which the first is left out if it is a label (`Machine.decoding_by_words`).
-/

namespace LineScript

namespace Text

variable {t : Text} {words : List Text}

/-- The words of a line without its label, which is the first of them if it
begins with a dot. -/
def unlabelled : List Text → List Text
  | ('.' :: _) :: words => words
  | words => words

/-- **Behind the label** the other words stand as they were spaced. -/
theorem Spaced.afterLabel (h : t.Spaced words) : (Operand.afterLabel t).Spaced (unlabelled words) := by
  rw [Operand.afterLabel]
  cases h with
  | spaces n =>
    rw [dropSpaces_replicate]
    exact .spaces 0
  | @word w rest words n some plain gap behind =>
    rw [dropSpaces_word n some plain]
    obtain ⟨first, name, rfl⟩ := List.exists_cons_of_ne_nil some
    by_cases mark : first = '.'
    · subst mark
      have name_ : ' ' ∉ name := fun mem => plain (List.mem_cons_of_mem _ mem)
      rw [List.cons_append, List.head?_cons, if_pos rfl, List.dropWhile_cons_of_pos (by decide),
        (span_word name_ gap).2]
      exact behind
    · have bare : unlabelled ((first :: name) :: words) = (first :: name) :: words := by
        rw [unlabelled.eq_def]
        split
        · next same => exact absurd (List.cons.inj (List.cons.inj same).1).1 mark
        · rfl
      rw [List.cons_append, List.head?_cons, if_neg (by simpa using mark), bare]
      exact .word 0 some plain gap behind

end Text

namespace Store

variable {s : Store} {index : Nat} {slot : Slot} {words : List Text}

theorem leading_of_slot (there : s.slot index = .ok slot) :
    s.leading index = (slot.skipLeading s.row).1 := by
  rw [leading, slot_eq_ok_iff.1 there]

/-- **From the offset on**, what was found at the front of a line is left out. -/
theorem spaced_textFrom (there : s.slot index = .ok slot) (clean : slot.Clean s.row)
    (spaced : slot.text.Spaced words) :
    ((s.terminateLabel index).textFrom index (s.leading index).offset).Spaced
      (Text.unlabelled words) := by
  have held := slot_eq_ok_iff.1 (slot_terminateLabel_self there)
  rw [Store.textFrom, held, leading_of_slot there]
  change ((slot.skipLeading s.row).2.textFrom (slot.skipLeading s.row).1.offset).Spaced _
  rw [(Slot.textFrom_skipLeading clean).1]
  exact spaced.afterLabel.dropSpaces

end Store

namespace Machine

variable {m : Machine} {s : Store} {index : Nat} {slot : Slot} {t : Text} {words : List Text}

/-- The instruction some words say on the current line, if the first of them is
a command. -/
def instructionOf? (m : Machine) (words : List Text) : Option Instruction :=
  (Command.ofKeyword? (words.headD [])).map fun c =>
    let (arguments, operator) := Argument.ofWords words.tail c.signature.operator
      (c.signature.keeps m.config.args)
    { command := c
      operator
      operands := arguments.map fun arg =>
        Operand.resolve arg m.line m.session.labels (m.store.terminateLabel m.line) }

/-- What a line that is not skipped says, its words say. -/
theorem instruction?_of_words (heeded : m.session.flow.isSkipping = false)
    (there : m.store.slot m.line = .ok slot) (clean : slot.Clean m.store.row)
    (spaced : slot.text.Spaced words) :
    m.instruction? = m.instructionOf? (Text.unlabelled words) := by
  have decoded := (Store.spaced_textFrom there clean spaced).decodes
  have command : m.store.command? m.line =
      Command.ofKeyword? ((Text.unlabelled words).headD []) := by
    rw [Store.command?, Store.wordsOf, decoded.keyword]
  rw [instruction?, if_neg (by rw [heeded]; decide), instructionOf?, command]
  congr 1
  funext c
  rw [decode]
  dsimp only
  rw [Store.wordsOf, decoded.arguments]
  rfl

/-- **Decoding depends on the words of a text alone**, however they are spaced:
the keyword is the first of them, and the arguments and the operator are what the
others say. Looking past the front of a line leaves out its label and no other
word. So a search finds on its line the instruction that the words behind the
label say, or none. -/
theorem decoding_by_words :
    (t.Spaced words → t.Decodes words) ∧
    (s.slot index = .ok slot → slot.Clean s.row → slot.text.Spaced words →
      ∃ found s', s.skipLeading index = (.ok found, s') ∧
        (s'.textFrom index found.offset).Decodes (Text.unlabelled words)) ∧
    (m.line < m.store.inputSlot → m.session.flow.isSkipping = false →
      m.store.slot m.line = .ok slot → slot.Clean m.store.row → slot.text.Spaced words →
      m.search = match m.instructionOf? (Text.unlabelled words) with
        | some i => m.settled.enter i.firstStage
        | none => m.settled.enter (.advance none none)) := by
  refine ⟨Text.Spaced.decodes, ?_, ?_⟩
  · intro there clean spaced
    refine ⟨_, _, Store.skipLeading_of_slot there, ?_⟩
    rw [← Store.leading_of_slot there]
    exact (Store.spaced_textFrom there clean spaced).decodes
  · intro inside heeded there clean spaced
    have flow : m.flowPast = m.session.flow := by
      rw [flowPast, if_neg (by rw [heeded]; decide)]
    rw [search_eq, if_neg (by omega), instruction?_of_words heeded there clean spaced, flow]
    rfl

/-- An operator behind the last operand that is kept, and another behind that. -/
theorem decoding_by_words_late : ∃ (m : Machine) (slot : Slot) (found : Leading) (s : Store),
    Text.keyword "  int @7 5  9 -  + ".toList = ("int".toList, " @7 5  9 -  + ".toList) ∧
    Argument.parseAll " @7 5  9 -  + ".toList true 2 =
      ([.line "7".toList, .immediate "5".toList], some (.binary .sub)) ∧
    m.line < m.store.inputSlot ∧ m.session.flow.isSkipping = false ∧
    m.store.slot m.line = .ok slot ∧ slot.Clean m.store.row ∧
    slot.text = " .a  int @7 @1  5 9 -  + ".toList ∧
    m.store.skipLeading m.line = (.ok found, s) ∧
    (s.textFrom m.line found.offset).keyword.1 = "int".toList ∧
    m.search = m.settled.enter (.enumerate
      { command := .compute .signed
        operator := some (.binary .sub)
        operands := [.line 7, .line 1, .immediate "5".toList] } []) := by
  have reached := (@Reachable.new { lines := 9, row := 32 } { clock := .stepped 0 } default _ rfl).calls
    [.write 1 " .a  int @7 @1  5 9 -  + ".toList]
  generalize stands : Machine.calls _ _ = m at reached
  let words := ["int", "@7", "@1", "5", "9", "-", "+"].map String.toList
  obtain ⟨inside, heeded, size, line, decoded⟩ : m.line < m.store.inputSlot ∧
      m.session.flow.isSkipping = false ∧ m.line < m.store.size ∧
      m.store.line m.line = " .a  int @7 @1  5 9 -  + ".toList ∧
      (m.instructionOf? words).map (fun i => (i.command, i.operator, i.operands)) =
        some (.compute .signed, some (.binary .sub), [.line 7, .line 1, .immediate "5".toList]) := by
    rw [← stands]
    decide +kernel
  obtain ⟨slot, held⟩ := m.store.exists_slot size
  have there := Store.slot_eq_ok_iff.2 held
  have clean := reached.clean.getElem held
  have text : slot.text = " .a  int @7 @1  5 9 -  + ".toList := by
    rw [← Store.line_of_slot there, line]
  have spaced : slot.text.Spaced (".a".toList :: words) := by
    rw [text]
    exact Text.spaced_words _
  obtain ⟨⟨instruction, operator, operands⟩, found, same⟩ := Option.map_eq_some_iff.1 decoded
  obtain ⟨⟩ := same
  obtain ⟨plain, -, -⟩ := @decoding_by_words m m.store m.line slot "  int @7 5  9 -  + ".toList
    (["int", "@7", "5", "9", "-", "+"].map String.toList)
  obtain ⟨-, front, search⟩ := @decoding_by_words m m.store m.line slot [] (".a".toList :: words)
  obtain ⟨keyword, arguments⟩ := plain (Text.spaced_words "  int @7 5  9 -  + ".toList)
  obtain ⟨leading, s, look, behind⟩ := front there clean spaced
  refine ⟨m, slot, leading, s, rfl, ?_, inside, heeded, there, clean, text, look, behind.keyword, ?_⟩
  · exact arguments true 2
  · have unlabelled : Text.unlabelled (".a".toList :: words) = words := rfl
    rw [search inside heeded there clean spaced, unlabelled, found]
    rfl

end Machine

end LineScript
