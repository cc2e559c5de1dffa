import LineScript.Store.Leading
/-!
# Changes of a store

Every operation that changes a store, as data, so that a sequence of them can
be spoken of, failing ones among them.
-/

namespace LineScript

namespace Store

/-- An operation that changes a store. -/
inductive Change where
  | write (index : Nat) (t : Text)
  | writeBytes (index : Nat) (bytes : List UInt8)
  | clearLine (index : Nat)
  | clear
  | skipLeading (index : Nat)
  | insert (index last : Nat)
  | remove (index last : Nat)

variable (s : Store)

/-- Makes a change: the fault it ends in, if it does, and the store after it. -/
def apply : Change → Option Fault × Store
  | .write index t => s.write index t
  | .writeBytes index bytes => s.writeBytes index bytes
  | .clearLine index => s.clearLine index
  | .clear => (none, s.clear)
  | .skipLeading index =>
    match s.skipLeading index with
    | (.ok _, s) => (none, s)
    | (.error fault, s) => (some fault, s)
  | .insert index last => s.insert index last
  | .remove index last => s.remove index last

/-- The store after some changes, failing ones among them. -/
def applyAll (changes : List Change) : Store := changes.foldl (fun s c => (s.apply c).2) s

end Store

end LineScript
