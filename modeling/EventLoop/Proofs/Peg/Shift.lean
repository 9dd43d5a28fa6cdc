import EventLoop.Proofs.Peg.Conclusion
import EventLoop.Proofs.Source.Shift

/-!
# Matching further on

What an expression comes to depends on the text that is left, and not on how much has been
read before: if layout is skipped in the same way everywhere (`Grammar.Movable`), then an
expression comes to the same further on, with trees that are moved along
(`Concludes.shift`).

The attempts are moved along too, with one exception.  Where no rule has failed yet, the
furthest place is the start of the text, wherever the expression is matched.  So a furthest
place is moved, or it is the start of the text both times (`Moved`), and the first rule that
fails settles it.
-/

namespace EventLoop.Peg

variable {R : Type}

/-! ## Trees and attempts -/

mutual

/-- A tree that is so many bytes further on. -/
def Tree.shift (bytes : Nat) : Tree R → Tree R
  | .node rule start stop children =>
    .node rule (start.shift bytes) (stop.shift bytes) (Tree.shiftAll bytes children)

/-- Trees that are so many bytes further on. -/
def Tree.shiftAll (bytes : Nat) : List (Tree R) → List (Tree R)
  | [] => []
  | tree :: rest => tree.shift bytes :: Tree.shiftAll bytes rest

end

theorem Tree.shiftAll_append (bytes : Nat) (first rest : List (Tree R)) :
    Tree.shiftAll bytes (first ++ rest) =
      Tree.shiftAll bytes first ++ Tree.shiftAll bytes rest := by
  induction first with
  | nil => rfl
  | cons tree first ih => rw [List.cons_append, shiftAll, shiftAll, ih, List.cons_append]

namespace Attempts

/-- Of two furthest places the further one is kept. -/
theorem offset_join [DecidableEq R] (first second : Attempts R) :
    (first.join second).offset = max first.offset second.offset := by
  unfold join
  split
  · omega
  · split
    · omega
    · dsimp only
      omega

/-- A rule that fails is an attempt at its place. -/
theorem offset_note (inner : Attempts R) (rule : R) (offset : Nat) :
    (inner.note rule offset).offset = max inner.offset offset := by
  unfold note
  split
  · omega
  · dsimp only
    omega

end Attempts

/-- The furthest places of two runs, where the second one is so many bytes further on. -/
def Moved (bytes offset later : Nat) : Prop :=
  later = offset + bytes ∨ offset = 0 ∧ later = 0

namespace Moved

variable {bytes offset later other otherLater : Nat}

theorem start (bytes : Nat) : Moved bytes 0 0 :=
  .inr ⟨rfl, rfl⟩

theorem max (h : Moved bytes offset later) (hother : Moved bytes other otherLater) :
    Moved bytes (max offset other) (max later otherLater) := by
  unfold Moved at *
  omega

/-- A place that is as far as the second run has started is moved. -/
theorem eq_add (h : Moved bytes offset later) (hle : bytes ≤ later) : later = offset + bytes := by
  unfold Moved at h
  omega

end Moved

/-- An outcome and the outcome of the same match further on. -/
inductive Outcome.Shifted (bytes : Nat) : Outcome R → Outcome R → Prop where
  | failure {attempts later : Attempts R} (h : Moved bytes attempts.offset later.offset) :
      Shifted bytes (.failure attempts) (.failure later)
  | success {attempts later : Attempts R} (h : Moved bytes attempts.offset later.offset)
      (stop : Cursor) (trees : List (Tree R)) :
      Shifted bytes (.success attempts stop trees)
        (.success later (stop.shift bytes) (Tree.shiftAll bytes trees))

namespace Outcome.Shifted

variable {bytes : Nat} {outcome later : Outcome R}

theorem ofStop (stop : Option Cursor) :
    (Outcome.ofStop stop : Outcome R).Shifted bytes (.ofStop (stop.map (Cursor.shift bytes))) := by
  cases stop with
  | none => exact .failure (.start bytes)
  | some stop => exact .success (.start bytes) stop []

theorem after [DecidableEq R] (h : outcome.Shifted bytes later) {attempts others : Attempts R}
    (hattempts : Moved bytes attempts.offset others.offset) (trees : List (Tree R)) :
    (outcome.after attempts trees).Shifted bytes
      (later.after others (Tree.shiftAll bytes trees)) := by
  cases h with
  | failure h =>
      apply failure
      rw [Attempts.offset_join, Attempts.offset_join]
      exact hattempts.max h
  | success h stop more =>
      unfold Outcome.after
      dsimp only
      rw [← Tree.shiftAll_append]
      apply success
      rw [Attempts.offset_join, Attempts.offset_join]
      exact hattempts.max h

theorem orNothing (h : outcome.Shifted bytes later) (cursor : Cursor) :
    (outcome.orNothing cursor).Shifted bytes (later.orNothing (cursor.shift bytes)) := by
  cases h with
  | failure h => exact .success h cursor []
  | success h stop trees => exact .success h stop trees

theorem inverted (h : outcome.Shifted bytes later) (cursor : Cursor) :
    (outcome.inverted cursor).Shifted bytes (later.inverted (cursor.shift bytes)) := by
  cases h with
  | failure => exact .success (.start bytes) cursor []
  | success => exact .failure (.start bytes)

theorem report (h : outcome.Shifted bytes later) (grammar : Grammar R) (mode : Mode) (rule : R)
    (cursor : Cursor) :
    (grammar.report mode rule cursor outcome).Shifted bytes
      (grammar.report mode rule (cursor.shift bytes) later) := by
  unfold Grammar.report
  split
  · exact h
  · cases h with
    | failure h =>
        apply failure
        rw [Attempts.offset_note, Attempts.offset_note]
        exact h.max (.inl rfl)
    | success h stop trees => exact .success h stop [.node rule cursor stop trees]

end Outcome.Shifted

/-! ## Conclusions -/

/-- Layout is skipped in the same way further on. -/
def Grammar.Movable (grammar : Grammar R) (bytes : Nat) : Prop :=
  ∀ cursor, grammar.skipLayout (cursor.shift bytes) = (grammar.skipLayout cursor).shift bytes

theorem Grammar.Movable.skip {grammar : Grammar R} {bytes : Nat} (h : grammar.Movable bytes)
    (mode : Mode) (cursor : Cursor) :
    grammar.skip mode (cursor.shift bytes) = (grammar.skip mode cursor).shift bytes := by
  unfold Grammar.skip
  split
  · exact h cursor
  · rfl

variable [DecidableEq R]

/-- An expression comes to the same further on. -/
theorem Concludes.shift {grammar : Grammar R} {bytes : Nat} (hmovable : grammar.Movable bytes)
    {mode : Mode} {e : Expr R} {cursor : Cursor} {outcome : Outcome R}
    (h : Concludes grammar mode e cursor outcome) :
    ∃ later, Concludes grammar mode e (cursor.shift bytes) later ∧
      outcome.Shifted bytes later := by
  induction h with
  | text mode characters cursor =>
      refine ⟨_, .text mode characters _, ?_⟩
      rw [Cursor.drop?_shift]
      exact .ofStop _
  | char mode accepts cursor =>
      refine ⟨_, .char mode accepts _, ?_⟩
      rw [Cursor.next?_shift]
      exact .ofStop _
  | endOfText mode cursor =>
      refine ⟨_, .endOfText mode _, ?_⟩
      rw [Cursor.shift_rest]
      split
      · exact .ofStop (some cursor)
      · exact .ofStop none
  | rule _ ih =>
      obtain ⟨later, hlater, hshifted⟩ := ih
      exact ⟨_, .rule hlater, hshifted.report grammar _ _ _⟩
  | seqRefused _ ih =>
      obtain ⟨later, hlater, hshifted⟩ := ih
      cases hshifted with
      | failure hmoved => exact ⟨_, .seqRefused hlater, .failure hmoved⟩
  | seq _ _ ih ihrest =>
      obtain ⟨later, hlater, hshifted⟩ := ih
      obtain ⟨laterRest, hlaterRest, hshiftedRest⟩ := ihrest
      cases hshifted with
      | success hmoved =>
          rw [← hmovable.skip] at hlaterRest
          exact ⟨_, .seq hlater hlaterRest, hshiftedRest.after hmoved _⟩
  | altFirst f _ ih =>
      obtain ⟨later, hlater, hshifted⟩ := ih
      cases hshifted with
      | success hmoved => exact ⟨_, .altFirst f hlater, .success hmoved _ _⟩
  | altSecond _ _ ih ihsecond =>
      obtain ⟨later, hlater, hshifted⟩ := ih
      obtain ⟨laterSecond, hlaterSecond, hshiftedSecond⟩ := ihsecond
      cases hshifted with
      | failure hmoved =>
          exact ⟨_, .altSecond hlater hlaterSecond, hshiftedSecond.after hmoved []⟩
  | optional _ ih =>
      obtain ⟨later, hlater, hshifted⟩ := ih
      exact ⟨_, .optional hlater, hshifted.orNothing _⟩
  | manyNone _ ih =>
      obtain ⟨later, hlater, hshifted⟩ := ih
      cases hshifted with
      | failure hmoved => exact ⟨_, .manyNone hlater, .success hmoved _ []⟩
  | manyLast _ _ ih ihend =>
      obtain ⟨later, hlater, hshifted⟩ := ih
      obtain ⟨laterEnd, hlaterEnd, hshiftedEnd⟩ := ihend
      cases hshifted with
      | success hmoved =>
          cases hshiftedEnd with
          | failure hmovedEnd =>
              rw [← hmovable.skip] at hlaterEnd
              refine ⟨_, .manyLast hlater hlaterEnd, .success ?_ _ _⟩
              rw [Attempts.offset_join, Attempts.offset_join]
              exact hmoved.max hmovedEnd
  | manyMore _ _ _ ih ihnext ihrest =>
      obtain ⟨later, hlater, hshifted⟩ := ih
      obtain ⟨laterNext, hlaterNext, hshiftedNext⟩ := ihnext
      obtain ⟨laterRest, hlaterRest, hshiftedRest⟩ := ihrest
      cases hshifted with
      | success hmoved =>
          cases hshiftedNext with
          | success =>
              rw [← hmovable.skip] at hlaterNext hlaterRest
              exact ⟨_, .manyMore hlater hlaterNext hlaterRest, hshiftedRest.after hmoved _⟩
  | «unless» _ ih =>
      obtain ⟨later, hlater, hshifted⟩ := ih
      exact ⟨_, .unless hlater, hshifted.inverted _⟩

/-- A recorded rule that fails leaves attempts at its place or further on. -/
theorem Concludes.offset_le {grammar : Grammar R} {mode : Mode} {rule : R} {cursor : Cursor}
    {attempts : Attempts R} (hrecorded : ¬ (grammar.kind rule = .hidden ∨ mode = .token))
    (h : Concludes grammar mode (.rule rule) cursor (.failure attempts)) :
    cursor.offset ≤ attempts.offset := by
  generalize hfailure : Outcome.failure attempts = outcome at h
  cases h with
  | @rule _ _ _ inner _ =>
      rw [Grammar.report, if_neg hrecorded] at hfailure
      cases inner with
      | failure others =>
          obtain rfl := Outcome.failure.inj hfailure
          rw [Attempts.offset_note]
          omega
      | success => contradiction

end EventLoop.Peg
