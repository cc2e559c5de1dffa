import LineScript.Store
/-!
# What stands at the front of a line

A line may begin with a label: after any spaces, a dot and a name that runs
to the next space. Looking past it also terminates it. A label that runs to
the end of the text gets a space after it; where the text already fills its
slot, that space takes the place of the last character of the name. A full
line that ends in a bare dot has neither room nor a name and stays as it is.
-/

namespace LineScript

/-- What begins a line: the byte at which its first word begins, and the span
of the label name before it, dot excluded. -/
structure Leading where
  offset : Nat
  label : Option (Nat × Nat) := none
deriving DecidableEq

namespace Slot

/-- The space, as a byte. -/
def spaceByte : UInt8 := 0x20

/-- The dot that marks a label, as a byte. -/
def labelByte : UInt8 := 0x2E

/-- A name without its last character: the continuation bytes at its end and
the byte before them. -/
def dropLastChar (name : List UInt8) : List UInt8 :=
  ((name.reverse.dropWhile Utf8.isContinuation).drop 1).reverse

/-- The name of an unterminated label and the space that now ends it, where
`hasRoom` says whether the slot can take one more byte. -/
def terminate (hasRoom : Bool) (name : List UInt8) : List UInt8 × List UInt8 :=
  if hasRoom then (name, [spaceByte])
  else if name.isEmpty then ([], [])
  else (dropLastChar name, [spaceByte])

/-- The front of a slot, and the slot with its label terminated. -/
def skipLeading (row : Nat) (s : Slot) : Leading × Slot :=
  let content := s.content
  let spaces := content.takeWhile (· = spaceByte)
  match content.drop spaces.length with
  | [] => ({ offset := spaces.length }, s)
  | first :: body =>
    if first = labelByte then
      let start := spaces.length + 1
      let name := body.takeWhile (· ≠ spaceByte)
      let after := body.dropWhile (· ≠ spaceByte)
      if after.isEmpty then
        let (name, after) := terminate (content.length + 1 < row) name
        let stop := start + name.length
        ({ offset := stop + after.length, label := some (start, stop) },
          pad row (spaces ++ labelByte :: name ++ after))
      else
        let stop := start + name.length
        ({ offset := stop + (after.takeWhile (· = spaceByte)).length,
           label := some (start, stop) }, s)
    else ({ offset := spaces.length }, s)

/-- The text of a slot from one byte of its content on. -/
def textFrom (s : Slot) (offset : Nat) : Text := Utf8.decode (s.content.drop offset)

/-- The text of a span of the content. -/
def textAt (s : Slot) (span : Nat × Nat) : Text :=
  Utf8.decode ((s.content.drop span.1).take (span.2 - span.1))

end Slot

namespace Store

variable (s : Store)

/-- The front of a line. A line that does not exist has nothing there. -/
def leading (index : Nat) : Leading :=
  match s.slots[index]? with
  | some slot => (slot.skipLeading s.row).1
  | none => { offset := 0 }

/-- The store with the label of one line terminated. -/
def terminateLabel (index : Nat) : Store :=
  match s.slots[index]? with
  | some slot =>
    let terminated := (slot.skipLeading s.row).2
    if terminated = slot then s
    else { s with slots := s.slots.setIfInBounds index terminated }
  | none => s

/-- The front of a line, and the store with its label terminated. -/
def skipLeading (index : Nat) : Except Fault Leading × Store :=
  if index < s.size then (.ok (s.leading index), s.terminateLabel index)
  else (.error (.noSuchLine index), s)

/-- The text of a line from one byte on. -/
def textFrom (index offset : Nat) : Text :=
  (s.slots[index]?.map (·.textFrom offset)).getD []

/-- The text of a span of a line. -/
def textAt (index : Nat) (span : Nat × Nat) : Text :=
  (s.slots[index]?.map (·.textAt span)).getD []

end Store

end LineScript
