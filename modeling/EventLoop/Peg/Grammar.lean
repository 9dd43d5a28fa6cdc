import EventLoop.Source.Cursor

/-!
# Parsing expression grammars

A grammar names expressions by rules.  Choices are ordered and repetitions
greedy: an expression matches in one way at most, and what has matched is never
tried again in another way.

Between the parts of a sequence stands optional layout (blanks and comments),
if the rule at hand is `spaced`.  Rules decide this for their own parts and,
unless these decide otherwise, for the parts of the rules they use; inside a
`token` there is neither layout nor any record of the rules used.
-/

namespace EventLoop.Peg

/-- What a rule matches. -/
inductive Expr (R : Type) where
  /-- A literal text. -/
  | text (characters : List Char)
  /-- One character of a class. -/
  | char (accepts : Char → Bool)
  /-- Nothing, at the end of the text. -/
  | endOfText
  /-- What a rule matches. -/
  | rule (r : R)
  /-- One expression after the other. -/
  | seq (first second : Expr R)
  /-- The first expression, or else the second. -/
  | alt (first second : Expr R)
  /-- The expression or nothing. -/
  | optional (e : Expr R)
  /-- The expression as often as it matches. -/
  | many (e : Expr R)
  /-- Nothing, where the expression does not match. -/
  | unless (e : Expr R)

/-- A sequence of expressions. -/
def all {R : Type} : List (Expr R) → Expr R
  | [] => .text []
  | [e] => e
  | e :: es => .seq e (all es)

/-- A choice between expressions. -/
def oneOf {R : Type} : List (Expr R) → Expr R
  | [] => .unless (.text [])
  | [e] => e
  | e :: es => .alt e (oneOf es)

/-- Whether the parts of a sequence may have layout between them, and whether
rules are recorded. -/
inductive Mode where
  | spaced
  | joined
  | token
  deriving DecidableEq

/-- How a rule treats its parts. -/
inductive RuleKind where
  /-- Parts are treated as where the rule is used. -/
  | plain
  /-- Like `plain`, but the rule itself is never recorded. -/
  | hidden
  /-- Parts follow each other directly and are not recorded. -/
  | token
  /-- Parts follow each other directly. -/
  | joined
  /-- Parts may have layout between them. -/
  | spaced
  deriving DecidableEq

/-- The mode of a rule's parts where the rule is used in a mode. -/
def RuleKind.modeIn : RuleKind → Mode → Mode
  | .plain, mode => mode
  | .hidden, mode => mode
  | .token, _ => .token
  | .joined, _ => .joined
  | .spaced, _ => .spaced

/-- A grammar over rules `R`. -/
structure Grammar (R : Type) where
  kind : R → RuleKind
  body : R → Expr R
  /-- Moves past the layout at a place. -/
  skipLayout : Cursor → Cursor
  /-- The rules through which nested parts of a text are reached. -/
  shared : List R

/-- Moves past the layout at a place where the mode allows layout. -/
def Grammar.skip {R : Type} (grammar : Grammar R) (mode : Mode) (cursor : Cursor) : Cursor :=
  if mode = .spaced then grammar.skipLayout cursor else cursor

end EventLoop.Peg
