import LineScript.Proofs.Block.Skip
/-!
# Balanced keywords

One counter serves branches and loops while lines are skipped, and what an
`else` or an `endif` does depends on the reason and on the depth. For keywords
in which every block is closed (`Balanced`) this comes to nothing: they are
passed over without a trace (`passAll_balanced`). So a skipping ends with the
first keyword that closes its own block (`skipping_stops`).

A loop can be left from within branches. What is skipped then is the rest of
each of them, with the `else` and the `endif` of blocks that were opened before
(`Remainder`), and these do not end the skipping of a loop.
-/

namespace LineScript

/-- Keywords in which every block that is opened is closed: a branch by its
`endif`, with at most one `else` at its own level, and a loop by the end of a
loop, for which it does not matter of which kind it is. -/
inductive Balanced : List Command → Prop where
  | nil : Balanced []
  /-- A word that is no block keyword. -/
  | plain {c : Command} {rest : List Command} :
      c.skipAware = false → Balanced rest → Balanced (c :: rest)
  | branch {yes rest : List Command} (sides : Comparand) :
      Balanced yes → Balanced rest → Balanced (.branch sides :: (yes ++ .endBranch :: rest))
  | choice {yes no rest : List Command} (sides : Comparand) :
      Balanced yes → Balanced no → Balanced rest →
      Balanced (.branch sides :: (yes ++ .otherwise :: (no ++ .endBranch :: rest)))
  | loop {body rest : List Command} (kind kind' : LoopKind) :
      Balanced body → Balanced rest → Balanced (kind.head :: (body ++ kind'.terminator :: rest))

/-- Balanced parts, separated by `else` and `endif` keywords that close
nothing in them. -/
inductive Remainder : List Command → Prop where
  | last {words : List Command} : Balanced words → Remainder words
  | stray {words rest : List Command} {c : Command} : Balanced words →
      c = .otherwise ∨ c = .endBranch → Remainder rest → Remainder (words ++ c :: rest)

namespace Flow

variable {f : Flow} {words : List Command}

/-- Takes note of the commands of several skipped lines. -/
def passAll (f : Flow) (words : List Command) : Flow := words.foldl pass f

theorem passAll_cons (f : Flow) (c : Command) (rest : List Command) :
    f.passAll (c :: rest) = (f.pass c).passAll rest := rfl

theorem passAll_append (f : Flow) (words rest : List Command) :
    f.passAll (words ++ rest) = (f.passAll words).passAll rest := List.foldl_append

/-! ## While lines are skipped -/

/-- What is not skipped is not skipped later, either. -/
theorem isSkipping_of_pass {c : Command} (h : (f.pass c).isSkipping = true) :
    f.isSkipping = true := by
  rcases f.pass_skip_or_running c with same | ended
  · rwa [isSkipping, same] at h
  · rw [ended] at h
    cases h

theorem isSkipping_of_passAll (h : (f.passAll words).isSkipping = true) :
    f.isSkipping = true := by
  induction words generalizing f with
  | nil => exact h
  | cons c rest ih => exact isSkipping_of_pass (ih h)

/-- So lines that are skipped to the last are skipped all along. -/
theorem isSkipping_of_isPrefix {part : List Command} (first : part.IsPrefix words)
    (h : (f.passAll words).isSkipping = true) : (f.passAll part).isSkipping = true := by
  obtain ⟨rest, rfl⟩ := first
  rw [passAll_append] at h
  exact isSkipping_of_passAll h

/-! ## Balanced keywords -/

/-- **Balanced keywords leave no trace**, for whatever reason and at whatever
depth they are passed over. -/
theorem passAll_balanced (h : Balanced words) (f : Flow) : f.passAll words = f := by
  induction h generalizing f with
  | nil => rfl
  | plain unwatched _ ih =>
    rw [passAll_cons, f.pass_of_not_skipAware unwatched, ih]
  | branch sides _ _ ihYes ihRest =>
    rw [passAll_cons, pass_of_opensBlock rfl, passAll_append, ihYes, passAll_cons,
      pass_deeper_endBranch, ihRest]
  | choice sides _ _ _ ihYes ihNo ihRest =>
    -- this `else` is one block deeper than the one that could end the skipping
    rw [passAll_cons, pass_of_opensBlock rfl, passAll_append, ihYes, passAll_cons,
      pass_deeper_otherwise, passAll_append, ihNo, passAll_cons, pass_deeper_endBranch, ihRest]
  | loop kind kind' _ _ ihBody ihRest =>
    rw [passAll_cons, pass_of_opensBlock (Block.opensBlock_head kind), passAll_append, ihBody,
      passAll_cons, pass_deeper_terminator, ihRest]

/-- **The rest of the branches around it does not end the skipping of a loop.** -/
theorem passAll_remainder (h : Remainder words) : (start .loop).passAll words = start .loop := by
  induction h with
  | last balanced => exact passAll_balanced balanced _
  | stray balanced kind _ ih =>
    rw [passAll_append, passAll_balanced balanced, passAll_cons]
    rcases kind with rfl | rfl
    · exact ih
    · exact ih

/-! ## Where skipping ends -/

/-- **Skipping ends with the keyword that closes its own block**, and not
before: for a branch with the first `else` or `endif` behind balanced keywords,
for a loop with the first end of a loop behind what is left of it and of the
branches it is left from. -/
theorem skipping_stops (words : List Command) :
    (Balanced words →
      (start .branch).passAll words = start .branch ∧
      (∀ part, part.IsPrefix words → ((start .branch).passAll part).isSkipping = true) ∧
      ∀ c, c = .otherwise ∨ c = .endBranch →
        (start .branch).passAll (words ++ [c]) = running) ∧
    (Remainder words →
      (start .loop).passAll words = start .loop ∧
      (∀ part, part.IsPrefix words → ((start .loop).passAll part).isSkipping = true) ∧
      ∀ c, c = .endLoop ∨ c = .next → (start .loop).passAll (words ++ [c]) = running) := by
  refine ⟨fun balanced => ?_, fun remainder => ?_⟩
  · have kept := passAll_balanced balanced (start .branch)
    refine ⟨kept, fun part first => ?_, fun c closes => ?_⟩
    · refine isSkipping_of_isPrefix first ?_
      rw [kept]
      rfl
    · rw [passAll_append, kept]
      rcases closes with rfl | rfl
      · rfl
      · rfl
  · have kept := passAll_remainder remainder
    refine ⟨kept, fun part first => ?_, fun c closes => ?_⟩
    · refine isSkipping_of_isPrefix first ?_
      rw [kept]
      rfl
    · rw [passAll_append, kept]
      rcases closes with rfl | rfl
      · rfl
      · rfl

/-- A loop that is left from within two branches, of which the outer one has an
alternative with a loop in it. -/
theorem skipping_stops_left :
    (start .loop).passAll [.print, .endBranch, .otherwise, .count, .next, .endBranch, .endLoop] =
      running ∧
    (start .branch).passAll [.loop .text, .branch .text, .otherwise, .endBranch, .endLoop,
      .otherwise] = running := by
  have remainder : Remainder [.print, .endBranch, .otherwise, .count, .next, .endBranch] := by
    refine .stray (.plain rfl .nil) (.inr rfl) (.stray .nil (.inl rfl) ?_)
    exact .stray (.loop .counting .counting .nil .nil) (.inr rfl) (.last .nil)
  have balanced : Balanced [.loop .text, .branch .text, .otherwise, .endBranch, .endLoop] := by
    have body := Balanced.choice .text .nil .nil .nil
    exact Balanced.loop (.conditional .text) (.conditional .text) body .nil
  obtain ⟨-, -, loop⟩ := (skipping_stops _).2 remainder
  obtain ⟨-, -, branch⟩ := (skipping_stops _).1 balanced
  exact ⟨loop .endLoop (.inl rfl), branch .otherwise (.inl rfl)⟩

end Flow

end LineScript
