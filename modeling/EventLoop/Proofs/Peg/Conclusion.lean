import EventLoop.Proofs.Peg.Derivation

/-!
# What matching comes to, with its attempts

`Concludes` says of every expression what it comes to at a place, as `Derives` does, and
also which attempts are left: the rules that failed at the furthest place where any rule
failed.  It follows the matcher but has none of its bounds.  An expression comes to one
outcome at most (`Concludes.unique`), and the match of that outcome is the one that the
grammar derives (`Concludes.derives`).
-/

namespace EventLoop.Peg

variable {R : Type}

/-! ## Outcomes -/

namespace Outcome

/-- The match of an outcome, if it is one. -/
def match? : Outcome R → Option (Match R)
  | .failure _ => none
  | .success _ stop trees => some ⟨stop, trees⟩

/-- What reading comes to that leads to a place, or nowhere, and makes no attempts. -/
def ofStop : Option Cursor → Outcome R
  | some stop => .success {} stop []
  | none => .failure {}

/-- The outcome of a look-ahead, which succeeds where an expression fails. -/
def inverted (cursor : Cursor) : Outcome R → Outcome R
  | .failure _ => .success {} cursor []
  | .success _ _ _ => .failure {}

@[simp]
theorem match?_after [DecidableEq R] (earlier : Attempts R) (trees : List (Tree R))
    (outcome : Outcome R) :
    (outcome.after earlier trees).match? = outcome.match?.map (Match.after trees) := by
  cases outcome <;> rfl

@[simp]
theorem match?_orNothing (cursor : Cursor) (outcome : Outcome R) :
    (outcome.orNothing cursor).match? = some (outcome.match?.getD ⟨cursor, []⟩) := by
  cases outcome <;> rfl

theorem match?_ofStop (stop : Option Cursor) :
    (ofStop stop : Outcome R).match? = stop.map (⟨·, []⟩) := by
  cases stop <;> rfl

theorem match?_inverted (cursor : Cursor) (outcome : Outcome R) :
    (outcome.inverted cursor).match? =
      if outcome.match?.isSome then none else some ⟨cursor, []⟩ := by
  cases outcome <;> rfl

/-- No trees before an outcome leave its match as it is. -/
theorem after_nothing [DecidableEq R] (outcome : Outcome R) :
    outcome.match?.map (Match.after []) = outcome.match? := by
  cases outcome <;> rfl

end Outcome

/-- What the outcome of a rule's body is for the rule. -/
def Grammar.report (grammar : Grammar R) (mode : Mode) (rule : R) (start : Cursor)
    (outcome : Outcome R) : Outcome R :=
  if grammar.kind rule = .hidden ∨ mode = .token then outcome else outcome.recorded rule start

theorem Grammar.match?_report (grammar : Grammar R) (mode : Mode) (rule : R) (start : Cursor)
    (outcome : Outcome R) :
    (grammar.report mode rule start outcome).match? =
      outcome.match?.map (grammar.record mode rule start) := by
  unfold report record
  split
  · exact Option.map_id'.symm
  · cases outcome <;> rfl

variable [DecidableEq R]

/-! ## Conclusions -/

/-- What an expression comes to at a place, with the attempts that are left. -/
inductive Concludes (grammar : Grammar R) : Mode → Expr R → Cursor → Outcome R → Prop where
  | text (mode : Mode) (characters : List Char) (cursor : Cursor) :
      Concludes grammar mode (.text characters) cursor (.ofStop (cursor.drop? characters))
  | char (mode : Mode) (accepts : Char → Bool) (cursor : Cursor) :
      Concludes grammar mode (.char accepts) cursor (.ofStop (cursor.next? accepts))
  | endOfText (mode : Mode) (cursor : Cursor) :
      Concludes grammar mode .endOfText cursor
        (.ofStop (if cursor.rest.isEmpty then some cursor else none))
  | rule {mode : Mode} {r : R} {cursor : Cursor} {outcome : Outcome R}
      (h : Concludes grammar ((grammar.kind r).modeIn mode) (grammar.body r) cursor outcome) :
      Concludes grammar mode (.rule r) cursor (grammar.report mode r cursor outcome)
  | seqRefused {mode : Mode} {e f : Expr R} {cursor : Cursor} {attempts : Attempts R}
      (h : Concludes grammar mode e cursor (.failure attempts)) :
      Concludes grammar mode (.seq e f) cursor (.failure attempts)
  | seq {mode : Mode} {e f : Expr R} {cursor stop : Cursor} {attempts : Attempts R}
      {trees : List (Tree R)} {outcome : Outcome R}
      (h : Concludes grammar mode e cursor (.success attempts stop trees))
      (hrest : Concludes grammar mode f (grammar.skip mode stop) outcome) :
      Concludes grammar mode (.seq e f) cursor (outcome.after attempts trees)
  | altFirst {mode : Mode} {e : Expr R} {cursor stop : Cursor} {attempts : Attempts R}
      {trees : List (Tree R)} (f : Expr R)
      (h : Concludes grammar mode e cursor (.success attempts stop trees)) :
      Concludes grammar mode (.alt e f) cursor (.success attempts stop trees)
  | altSecond {mode : Mode} {e f : Expr R} {cursor : Cursor} {attempts : Attempts R}
      {outcome : Outcome R} (h : Concludes grammar mode e cursor (.failure attempts))
      (hsecond : Concludes grammar mode f cursor outcome) :
      Concludes grammar mode (.alt e f) cursor (outcome.after attempts [])
  | optional {mode : Mode} {e : Expr R} {cursor : Cursor} {outcome : Outcome R}
      (h : Concludes grammar mode e cursor outcome) :
      Concludes grammar mode (.optional e) cursor (outcome.orNothing cursor)
  | manyNone {mode : Mode} {e : Expr R} {cursor : Cursor} {attempts : Attempts R}
      (h : Concludes grammar mode e cursor (.failure attempts)) :
      Concludes grammar mode (.many e) cursor (.success attempts cursor [])
  | manyLast {mode : Mode} {e : Expr R} {cursor stop : Cursor} {attempts last : Attempts R}
      {trees : List (Tree R)} (h : Concludes grammar mode e cursor (.success attempts stop trees))
      (hend : Concludes grammar mode e (grammar.skip mode stop) (.failure last)) :
      Concludes grammar mode (.many e) cursor (.success (attempts.join last) stop trees)
  | manyMore {mode : Mode} {e : Expr R} {cursor stop second : Cursor}
      {attempts others : Attempts R} {trees more : List (Tree R)} {outcome : Outcome R}
      (h : Concludes grammar mode e cursor (.success attempts stop trees))
      (hnext : Concludes grammar mode e (grammar.skip mode stop) (.success others second more))
      (hrest : Concludes grammar mode (.many e) (grammar.skip mode stop) outcome) :
      Concludes grammar mode (.many e) cursor (outcome.after attempts trees)
  | unless {mode : Mode} {e : Expr R} {cursor : Cursor} {outcome : Outcome R}
      (h : Concludes grammar mode e cursor outcome) :
      Concludes grammar mode (.unless e) cursor (outcome.inverted cursor)

namespace Concludes

variable {grammar : Grammar R} {mode : Mode} {e : Expr R} {cursor : Cursor}
  {outcome other : Outcome R}

/-- An expression comes to one outcome at most. -/
theorem unique (h : Concludes grammar mode e cursor outcome)
    (hother : Concludes grammar mode e cursor other) : outcome = other := by
  induction h generalizing other with
  | text | char | endOfText => cases hother; rfl
  | rule _ ih =>
      cases hother with
      | rule h => rw [ih h]
  | seqRefused _ ih =>
      cases hother with
      | seqRefused h => exact ih h
      | seq h _ => exact nomatch ih h
  | seq _ _ ih ihrest =>
      cases hother with
      | seqRefused h => exact nomatch ih h
      | seq h hrest =>
          obtain ⟨rfl, rfl, rfl⟩ := Outcome.success.inj (ih h)
          rw [ihrest hrest]
  | altFirst f _ ih =>
      cases hother with
      | altFirst _ h => exact ih h
      | altSecond h _ => exact nomatch ih h
  | altSecond _ _ ih ihsecond =>
      cases hother with
      | altFirst _ h => exact nomatch ih h
      | altSecond h hsecond =>
          obtain rfl := Outcome.failure.inj (ih h)
          rw [ihsecond hsecond]
  | optional _ ih =>
      cases hother with
      | optional h => rw [ih h]
  | manyNone _ ih =>
      cases hother with
      | manyNone h =>
          obtain rfl := Outcome.failure.inj (ih h)
          rfl
      | manyLast h _ => exact nomatch ih h
      | manyMore h _ _ => exact nomatch ih h
  | manyLast _ _ ih ihend =>
      cases hother with
      | manyNone h => exact nomatch ih h
      | manyLast h hend =>
          obtain ⟨rfl, rfl, rfl⟩ := Outcome.success.inj (ih h)
          obtain rfl := Outcome.failure.inj (ihend hend)
          rfl
      | manyMore h hnext _ =>
          obtain ⟨-, rfl, -⟩ := Outcome.success.inj (ih h)
          exact nomatch ihend hnext
  | manyMore _ _ _ ih ihnext ihrest =>
      cases hother with
      | manyNone h => exact nomatch ih h
      | manyLast h hend =>
          obtain ⟨-, rfl, -⟩ := Outcome.success.inj (ih h)
          exact nomatch ihnext hend
      | manyMore h _ hrest =>
          obtain ⟨rfl, rfl, rfl⟩ := Outcome.success.inj (ih h)
          rw [ihrest hrest]
  | «unless» _ ih =>
      cases hother with
      | «unless» h => rw [ih h]

/-- What an expression comes to is what the grammar derives, but for the attempts. -/
theorem derives (h : Concludes grammar mode e cursor outcome) :
    Derives grammar mode e cursor outcome.match? := by
  induction h with
  | text mode characters cursor =>
      rw [Outcome.match?_ofStop]
      exact .text mode characters cursor
  | char mode accepts cursor =>
      rw [Outcome.match?_ofStop]
      exact .char mode accepts cursor
  | endOfText mode cursor =>
      rw [Outcome.match?_ofStop, apply_ite (Option.map _)]
      exact .endOfText mode cursor
  | rule _ ih =>
      rw [Grammar.match?_report]
      exact .rule ih
  | seqRefused _ ih => exact .seqRefused ih
  | seq _ _ ih ihrest =>
      rw [Outcome.match?_after]
      exact .seq ih ihrest
  | altFirst f _ ih => exact .altFirst f ih
  | altSecond _ _ ih ihsecond =>
      rw [Outcome.match?_after, Outcome.after_nothing]
      exact .altSecond ih ihsecond
  | optional _ ih =>
      rw [Outcome.match?_orNothing]
      exact .optional ih
  | manyNone _ ih => exact .manyNone ih
  | manyLast _ _ ih ihend => exact .manyLast ih ihend
  | @manyMore _ _ _ _ _ _ _ _ _ outcome _ _ _ ih ihnext ihrest =>
      rw [Outcome.match?_after]
      cases outcome with
      | failure attempts => exact absurd ihrest Derives.not_many
      | success attempts stop trees => exact .manyMore ih ihnext ihrest
  | «unless» _ ih =>
      rw [Outcome.match?_inverted]
      exact .unless ih

end Concludes

end EventLoop.Peg
