import LineScript.Proofs.Session
/-!
# What a command leaves alone

A command works on the lines, the session, the board, the random numbers and
the printed text. `Machine.Framed` says of two machines that they differ in
nothing else, that the lines of one evolve into those of the other, and that
a sound session stays sound; `framed_perform` says it of every command. The
stages that follow a command read the rest of the machine as it was.

Nor does a command read more: what it does is the same in every stage and
whatever waits to be shown (`perform_showing`), and operands that are not
read do not matter to it (`perform_unread`).
-/

namespace LineScript

namespace Machine

variable {m m' m'' : Machine}

/-- The second machine is the first after commands were carried out on it. -/
structure Framed (m m' : Machine) : Prop where
  config : m'.config = m.config
  line : m'.line = m.line
  stage : m'.stage = m.stage
  running : m'.running = m.running
  cursor : m'.cursor = m.cursor
  listing : m'.listing = m.listing
  interrupted : m'.interrupted = m.interrupted
  /-- Random numbers are drawn, but from the same stream. -/
  words : m'.random.words = m.random.words
  store : m.store.Evolves m'.store
  session : ∀ c, m.session.Sound c → m'.session.Sound c

namespace Framed

theorem refl (m : Machine) : m.Framed m where
  config := rfl
  line := rfl
  stage := rfl
  running := rfl
  cursor := rfl
  listing := rfl
  interrupted := rfl
  words := rfl
  store := .refl _
  session _ h := h

theorem trans (h : m.Framed m') (h' : m'.Framed m'') : m.Framed m'' where
  config := h'.config.trans h.config
  line := h'.line.trans h.line
  stage := h'.stage.trans h.stage
  running := h'.running.trans h.running
  cursor := h'.cursor.trans h.cursor
  listing := h'.listing.trans h.listing
  interrupted := h'.interrupted.trans h.interrupted
  words := h'.words.trans h.words
  store := h.store.trans h'.store
  session c s := h'.session c (h.session c s)

end Framed

/-! ## One field at a time -/

/-- A change of the board or the printed text. -/
theorem framed_board (m : Machine) (board : Board) (output : Text) :
    m.Framed { m with board, output } := { Framed.refl m with }

/-- A drawn number. -/
theorem framed_random (m : Machine) : m.Framed { m with random := m.random.next.2 } :=
  { Framed.refl m with }

/-- A change of the session. -/
theorem framed_session {session : Session} (h : ∀ c, m.session.Sound c → session.Sound c) :
    m.Framed { m with session } := { Framed.refl m with session := h }

/-- A change of the lines. -/
theorem framed_store {store : Store} (h : m.store.Evolves store) :
    m.Framed { m with store } := { Framed.refl m with store := h }

theorem framed_skip (m : Machine) (reason : Skip) : m.Framed (m.skip reason) :=
  framed_session fun _ h => h.withFlow (Flow.settled_start reason)

theorem framed_pushLink (m : Machine) : m.Framed m.pushLink :=
  framed_session fun _ h => h.pushLink m.line

theorem framed_popLink (m : Machine) : m.Framed m.popLink.2 :=
  framed_session fun _ h => h.popLink

theorem framed_enterLoop (m : Machine) (taken : Bool) : m.Framed (m.enterLoop taken) := by
  unfold enterLoop
  split
  · exact framed_pushLink m
  · exact framed_skip m .loop

theorem framed_print (m : Machine) (t : Text) : m.Framed (m.print t) :=
  framed_board m _ _

theorem framed_arrays (m : Machine) (arrays : ArrayTable) (board : Board) :
    m.Framed { m with session := { m.session with arrays }, board } :=
  { Framed.refl m with session := fun _ h => h.withArrays arrays }

theorem framed_withArray (m : Machine) (id : Nat) (f : List UInt32 → Board → Board) :
    m.Framed (m.withArray id f) := by
  unfold withArray
  split
  · exact framed_board m _ _
  · exact .refl m

/-! ## All commands -/

/-- **No command touches more than the lines, the session and the board.** -/
theorem framed_perform (m : Machine) (i : Instruction) (v : Sources) :
    m.Framed (m.perform i v).2 := by
  unfold perform
  cases i.command with
  | compute | bitwise | copy | move | append | extend | countLines | countBytes | jump | stop
  | endBranch | input | read | readGpio => exact .refl m
  | rand => exact framed_random m
  | sleep | clearGpio | clearSound | beat | setTime | save => exact framed_board m _ _
  | call =>
    dsimp only
    split
    · exact framed_pushLink m
    · exact .refl m
  | ret | endLoop | next => exact framed_popLink m
  | push =>
    exact { Framed.refl m with
      store := m.session.evolves_push m.store (v.text 0)
      session := fun _ h => h.push m.store (v.text 0) }
  | pop =>
    exact { Framed.refl m with
      store := m.session.evolves_pop m.store
      session := fun _ h => h.pop m.store }
  | branch sides =>
    dsimp only
    split
    · exact .refl m
    · exact framed_skip m .branch
  | otherwise => exact framed_skip m .branch
  | loop | count => exact framed_enterLoop m _
  | leave => exact (framed_popLink m).trans (framed_skip _ .loop)
  | print | cursor => exact framed_print m _
  | getTime =>
    exact (framed_board m _ _).trans (framed_store (Store.evolves_writeFields _ _ _))
  | array | free => exact framed_arrays m _ _
  | picture =>
    dsimp only
    split
    · exact framed_print m _
    · exact .refl m
  | gpio | sound | interruptSound =>
    dsimp only
    exact framed_withArray m _ _
  | load =>
    exact { Framed.refl m with store := Store.evolves_load _ _ _ _ _ }
  | label =>
    exact { Framed.refl m with
      store := m.session.labels.evolves_rebuild m.store m.line
      session := fun _ h => h.rebuild m.store m.line }
  | clear =>
    exact (framed_store m.store.evolves_clear).trans (framed_arrays _ _ _)
  | pointer =>
    dsimp only
    split <;> exact .refl m

/-! ## What a command does not read -/

/-- The machine in another stage, with other things to show: `earlier` was
printed before its own output, and `listing` is pending. -/
def showing (m : Machine) (stage : Stage) (earlier : Text) (listing : Option Listing) : Machine :=
  { m with stage, output := earlier ++ m.output, listing }

/-- **A command reads neither the stage nor what is to be shown.** -/
theorem perform_showing (m : Machine) (stage : Stage) (earlier : Text) (listing : Option Listing)
    (i : Instruction) (v : Sources) :
    (m.showing stage earlier listing).perform i v =
      ((m.perform i v).1, (m.perform i v).2.showing stage earlier listing) := by
  unfold perform
  cases i.command with
  | compute | bitwise | copy | move | append | extend | countLines | countBytes | jump | stop
  | endBranch | input | read | readGpio | rand | sleep | clearGpio | clearSound | beat | setTime
  | save | ret | endLoop | next | push | pop | otherwise | leave | getTime | array | free | load
  | label | clear => rfl
  | print | cursor => simp only [showing, print, List.append_assoc]
  | call | branch | pointer =>
    dsimp only
    split <;> rfl
  | loop | count =>
    dsimp only [enterLoop]
    split <;> rfl
  | picture =>
    dsimp only [array?, showing]
    split
    · simp only [print, List.append_assoc]
    · rfl
  | gpio | sound | interruptSound =>
    dsimp only [withArray, array?, showing]
    split <;> rfl

/-- **A command that only points has no use for the values of its operands.** -/
theorem perform_unread (m : Machine) {i : Instruction} (v v' : Sources)
    (h : i.command.signature.domain = .none) : m.perform i v = m.perform i v' := by
  unfold perform
  cases hc : i.command with
  | rand | countLines | jump | call | ret | pop | stop | otherwise | endBranch | endLoop | leave
  | input | read | getTime | clearSound | label | clear | pointer => rfl
  | bitwise op =>
    rw [hc] at h
    cases op <;> cases h
  | branch sides | loop sides =>
    rw [hc] at h
    cases sides <;> cases h
  | compute | copy | move | append | extend | countBytes | push | count | next | print | sleep
  | setTime | cursor | array | free | picture | gpio | clearGpio | readGpio | sound
  | interruptSound | beat | save | load =>
    rw [hc] at h
    cases h

end Machine

/-! ## How commands end -/

namespace Command

/-- Whether the command ends the run. -/
def halts : Command → Bool
  | stop | clear => true
  | _ => false

/-- Whether the command waits for a line or for a time. -/
def suspends : Command → Bool
  | sleep | input | read => true
  | _ => false

end Command

namespace Effect

/-- Whether the effect is to wait. -/
def suspends : Effect → Bool
  | ask _ | pause _ => true
  | _ => false

end Effect

namespace Machine

/-- **How a command ends is fixed**, whatever the machine and the operands. -/
theorem halts_perform (m : Machine) (i : Instruction) (v : Sources) :
    (m.perform i v).1.halts = i.command.halts := by
  unfold perform
  cases i.command with
  | call | branch | pointer | picture =>
    dsimp only
    split <;> rfl
  | _ => rfl

theorem suspends_perform (m : Machine) (i : Instruction) (v : Sources) :
    (m.perform i v).1.suspends = i.command.suspends := by
  unfold perform
  cases i.command with
  | call | branch | pointer | picture =>
    dsimp only
    split <;> rfl
  | _ => rfl

end Machine

end LineScript
