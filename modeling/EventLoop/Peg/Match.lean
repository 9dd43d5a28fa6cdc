import EventLoop.Peg.Grammar

/-!
# Matching a grammar

`matchExpr` and `matchRule` match expressions and rules at a place of a text.
A match gives the place behind it and the trees of the recorded rules.

## Attempts

A match also tells its *attempts*: the rules that failed at the furthest place
where any rule failed.  They are what an error message lists.  A rule that
fails stands for the rules that failed inside it at the same place, unless that
is a single one, which then speaks for itself (`Attempts.note`).  Attempts of
matches that follow each other are joined, and also those of alternatives that
were given up; only a negative look-ahead leaves none.

## Places

What a rule comes to at a place depends on the rules at this place and at later
ones.  The `Answers` at a place hold what every rule comes to there, and those
of a text are made from its end to its start (`answersFrom`), so that a rule is
matched with the answers of all later places at hand.  The answers of some
rules, which the grammar calls `shared`, are kept once they are known.  This
makes no difference to what they are (`get_answersAt`), but without it the time
for a text would grow exponentially with the depth of its nesting.

## Bounds

The uses of rules at one place nest to a bounded depth, and a repetition has a
bounded number of rounds.  `parse` takes the number of rules and the length of
the text for these bounds: without left recursion a chain of nested uses at one
place passes through each rule once at most, and a round of a repetition
consumes at least one character.
-/

namespace EventLoop.Peg

variable {R : Type} [DecidableEq R]

/-- A recorded match of a rule, with the matches of the rules used in it. -/
inductive Tree (R : Type) where
  | node (rule : R) (start stop : Cursor) (children : List (Tree R))

/-- The rules that failed at the furthest place, each of them once. -/
structure Attempts (R : Type) where
  offset : Nat := 0
  /-- How often a rule failed there. -/
  count : Nat := 0
  rules : List R := []

namespace Attempts

/-- The attempts of two matches, one after the other. -/
def join (first second : Attempts R) : Attempts R :=
  if first.offset < second.offset then second
  else if second.offset < first.offset then first
  else ⟨first.offset, first.count + second.count,
    first.rules ++ second.rules.filter (· ∉ first.rules)⟩

/-- The attempts of a rule that failed at a place, with those made inside it. -/
def note (inner : Attempts R) (rule : R) (offset : Nat) : Attempts R :=
  if offset < inner.offset ∨ (inner.offset = offset ∧ inner.count = 1) then inner
  else ⟨offset, 1, [rule]⟩

end Attempts

/-- What comes of matching at a place. -/
inductive Outcome (R : Type) where
  | failure (attempts : Attempts R)
  | success (attempts : Attempts R) (stop : Cursor) (trees : List (Tree R))

namespace Outcome

/-- The outcome after other attempts, and after a match with trees. -/
def after (earlier : Attempts R) (trees : List (Tree R)) : Outcome R → Outcome R
  | .failure attempts => .failure (earlier.join attempts)
  | .success attempts stop others => .success (earlier.join attempts) stop (trees ++ others)

/-- A success is an outcome of something optional, and a failure is a match of
nothing. -/
def orNothing (cursor : Cursor) : Outcome R → Outcome R
  | .failure attempts => .success attempts cursor []
  | .success attempts stop trees => .success attempts stop trees

/-- Records the outcome of a rule. -/
def recorded (rule : R) (start : Cursor) : Outcome R → Outcome R
  | .failure attempts => .failure (attempts.note rule start.offset)
  | .success attempts stop children => .success attempts stop [.node rule start stop children]

end Outcome

/-- A matcher at a place. -/
abbrev Matcher (R : Type) := Cursor → Outcome R

/-! ## Expressions -/

/-- Further rounds of a repetition, each of them after layout. -/
def matchRounds (skip : Cursor → Cursor) (round : Matcher R) : Nat → Matcher R
  | 0, cursor => .success {} cursor []
  | rounds + 1, cursor =>
    match round (skip cursor) with
    | .failure attempts => .success attempts cursor []
    | .success attempts stop trees => (matchRounds skip round rounds stop).after attempts trees

/-- Matches an expression, where `use` matches the rules used in it. -/
def matchExpr (grammar : Grammar R) (rounds : Nat) (use : Mode → R → Matcher R) (mode : Mode) :
    Expr R → Matcher R
  | .text characters, cursor =>
    match cursor.drop? characters with
    | some stop => .success {} stop []
    | none => .failure {}
  | .char accepts, cursor =>
    match cursor with
    | ⟨offset, c :: rest⟩ =>
      if accepts c then .success {} ⟨offset + c.utf8Size, rest⟩ [] else .failure {}
    | ⟨_, []⟩ => .failure {}
  | .endOfText, cursor => if cursor.rest.isEmpty then .success {} cursor [] else .failure {}
  | .rule r, cursor => use mode r cursor
  | .seq first second, cursor =>
    match matchExpr grammar rounds use mode first cursor with
    | .failure attempts => .failure attempts
    | .success attempts stop trees =>
      (matchExpr grammar rounds use mode second (grammar.skip mode stop)).after attempts trees
  | .alt first second, cursor =>
    match matchExpr grammar rounds use mode first cursor with
    | .failure attempts => (matchExpr grammar rounds use mode second cursor).after attempts []
    | success => success
  | .optional e, cursor => (matchExpr grammar rounds use mode e cursor).orNothing cursor
  | .many e, cursor =>
    match matchExpr grammar rounds use mode e cursor with
    | .failure attempts => .success attempts cursor []
    | .success attempts stop trees =>
      (matchRounds (grammar.skip mode) (matchExpr grammar rounds use mode e) rounds stop).after
        attempts trees
  | .unless e, cursor =>
    match matchExpr grammar rounds use mode e cursor with
    | .failure _ => .success {} cursor []
    | .success _ _ _ => .failure {}

/-! ## Rules -/

/-- Matches a rule, where uses of rules at the same place nest to a depth at
most and `later` matches the rules at later places. -/
def matchRule (grammar : Grammar R) (rounds : Nat) (later : Mode → R → Matcher R) :
    Nat → Mode → R → Matcher R
  | 0, _, _, _ => .failure {}
  | depth + 1, mode, rule, cursor =>
    let kind := grammar.kind rule
    let use := fun mode rule place =>
      if place.offset = cursor.offset then matchRule grammar rounds later depth mode rule place
      else later mode rule place
    let outcome := matchExpr grammar rounds use (kind.modeIn mode) (grammar.body rule) cursor
    if kind = .hidden ∨ mode = .token then outcome else outcome.recorded rule cursor

/-- The outcomes of the rules at a place, of which some are kept. -/
structure Answers (R : Type) where
  direct : Mode → R → Outcome R
  /-- The outcomes of shared rules, used where layout may stand. -/
  kept : List (R × Thunk (Outcome R))

/-- The outcome of a rule. -/
def Answers.get (answers : Answers R) (mode : Mode) (rule : R) : Outcome R :=
  match mode, answers.kept.lookup rule with
  | .spaced, some outcome => outcome.get
  | _, _ => answers.direct mode rule

/-- Matches a rule at a place, by the answers at all places from a byte offset
on. -/
def lookUp (base : Nat) (answers : List (Answers R)) (mode : Mode) (rule : R) :
    Matcher R := fun cursor =>
  match answers[cursor.offset - base]? with
  | some answers => answers.get mode rule
  | none => .failure {}

/-- The answers at a place, by those at the places from a byte offset on. -/
def answersAt (grammar : Grammar R) (rounds depth : Nat) (cursor : Cursor)
    (base : Nat) (later : List (Answers R)) : Answers R :=
  let direct := fun mode rule =>
    matchRule grammar rounds (lookUp base later) depth mode rule cursor
  ⟨direct, grammar.shared.map fun rule => (rule, Thunk.mk fun _ => direct .spaced rule)⟩

/-- The answers at the places of a text, one for each byte of the text and one
for its end. -/
def answersFrom (grammar : Grammar R) (rounds depth : Nat) :
    Nat → List Char → List (Answers R)
  | offset, [] => [answersAt grammar rounds depth ⟨offset, []⟩ offset []]
  | offset, c :: rest =>
    let base := offset + c.utf8Size
    let later := answersFrom grammar rounds depth base rest
    List.replicate c.utf8Size (answersAt grammar rounds depth ⟨offset, c :: rest⟩ base later)
      ++ later

/-- Matches a rule at the start of a text, for a grammar of a number of
rules. -/
def parse (grammar : Grammar R) (ruleCount : Nat) (rule : R) (text : List Char) :
    Outcome R :=
  lookUp 0 (answersFrom grammar (text.length + 1) (ruleCount + 1) 0 text) .spaced rule
    (.start text)

/-! ## Kept answers -/

private theorem lookup_map {α : Type} (f : R → α) {rule : R} {value : α}
    {rules : List R} (h : (rules.map fun rule => (rule, f rule)).lookup rule = some value) :
    value = f rule := by
  induction rules with
  | nil => simp at h
  | cons first rest ih =>
    simp only [List.map_cons, List.lookup_cons] at h
    split at h
    · rename_i heq
      simp only [Option.some.injEq] at h
      rw [← h, eq_of_beq heq]
    · exact ih h

/-- A kept answer is the one that matching gives. -/
theorem get_answersAt (grammar : Grammar R) (rounds depth : Nat) (cursor : Cursor)
    (base : Nat) (later : List (Answers R)) (mode : Mode) (rule : R) :
    (answersAt grammar rounds depth cursor base later).get mode rule =
      matchRule grammar rounds (lookUp base later) depth mode rule cursor := by
  unfold Answers.get
  split
  · rename_i outcome h
    rw [lookup_map _ h]
    rfl
  · rfl

end EventLoop.Peg
