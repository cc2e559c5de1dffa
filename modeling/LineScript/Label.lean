import LineScript.Store.Leading
/-!
# The label table

Names bound to line numbers, as a scan of the store finds them: by increasing
line, up to a fixed number of entries, each name cut to a fixed number of
bytes. A query is cut the same way and the first match wins, so of two lines
with one label the later is never found.
-/

namespace LineScript

/-- The label bindings, by increasing line. -/
structure LabelTable where
  capacity : Nat
  nameLen : Nat
  entries : List (Text × Nat) := []
deriving DecidableEq

namespace LabelTable

/-- The same table without its bindings. -/
def clear (t : LabelTable) : LabelTable := { t with entries := [] }

/-- How many labels are bound. -/
def size (t : LabelTable) : Nat := t.entries.length

/-- The line a name is bound to. -/
def lookup (t : LabelTable) (name : Text) : Option Nat :=
  t.entries.lookup (Utf8.fit t.nameLen name)

/-- The bindings of `count` lines from `index` on, as long as there is `room`
for another. Every line looked at has its label terminated. -/
def scan (nameLen : Nat) : (count room index : Nat) → Store → List (Text × Nat) × Store
  | 0, _, _, s => ([], s)
  | _, 0, _, s => ([], s)
  | count + 1, room + 1, index, s =>
    let label := (s.leading index).label
    let s := s.terminateLabel index
    match label with
    | some span =>
      let name := Utf8.fit nameLen (s.textAt index span)
      let (rest, s) := scan nameLen count room (index + 1) s
      ((name, index) :: rest, s)
    | none => scan nameLen count (room + 1) (index + 1) s

/-- The table of the labels from line `start` on, the input line included. -/
def rebuild (t : LabelTable) (s : Store) (start : Nat) : LabelTable × Store :=
  let (entries, s) := scan t.nameLen (s.size - start) t.capacity start s
  ({ t with entries }, s)

end LabelTable

end LineScript
