import LineScript.Machine.Editor
import LineScript.Store.Change
/-!
# Hosts

What a host can do to a machine, and what it learns.
-/

namespace LineScript

/-- Something a host does. -/
inductive HostCall where
  | receive (t : Text)
  | execute (cycles : Nat)
  | interrupt
  | service
  | change (c : Store.Change)

namespace HostCall

/-- The call that writes a text to a line. -/
def write (line : Nat) (t : Text) : HostCall := change (.write line t)

/-- The call that writes bytes to a line. -/
def writeBytes (line : Nat) (bytes : List UInt8) : HostCall := change (.writeBytes line bytes)

end HostCall

/-- What a host learns from a call. -/
inductive Reply where
  /-- Whether an entered line was of use. -/
  | received (used : Bool)
  | event (e : Event)
  /-- The call is made, unless there is a fault. -/
  | made (fault : Option Fault)

namespace Machine

variable (m : Machine)

/-- A change of the store by the host. -/
def change (c : Store.Change) : Reply × Machine :=
  let (fault, store) := m.store.apply c
  (.made fault, { m with store })

/-- Answers a call. -/
def call : HostCall → Reply × Machine
  | .receive t =>
    let (used, m) := m.receive t
    (.received used, m)
  | .execute cycles =>
    let (event, m) := m.execute cycles
    (.event event, m)
  | .interrupt => (.made none, m.interrupt)
  | .service => (.made none, m.service)
  | .change c => m.change c

end Machine

end LineScript
