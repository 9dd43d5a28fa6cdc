import EventLoop.Script.Program

/-!
# Phrases

A phrase is a node of a program that is read from a stretch of the text: a statement,
an expression, a pattern, a declarator, a case of a switch or a member of a class.

`Phrase.children` lists the phrases that a phrase directly consists of, in the order in
which they are written.  What holds of a phrase and of all phrases inside it is said with
`Phrase.Everywhere`, and of all phrases of a program with `Program.Everywhere`.  So a fact
about a program at any depth is a fact about each phrase and its children.

A method is a function that has the name of its key.  It is kept apart from the functions
that are values of properties, which have a name of their own or none.
-/

namespace EventLoop.Script

/-- A node of a program. -/
inductive Phrase where
  | stmt (value : Stmt)
  | expr (value : Expr)
  | method (function : Expr)
  | pattern (value : Pattern)
  | declarator (value : Declarator)
  | switchCase (value : SwitchCase)
  | member (value : ClassMember)

namespace Phrase

/-- The body of a function. -/
def ofBody : FunctionBody → Phrase
  | .block body => .stmt body
  | .expr value => .expr value

/-- The value of a property, which is a method if the property is all of it. -/
def ofProperty (keySpan : Span) : Expr → Phrase
  | .function name params isAsync isArrow body span =>
    let function := .function name params isAsync isArrow body span
    if keySpan = span then .method function else .expr function
  | value => .expr value

/-- The stretch of the text that a phrase is read from.  A member that is a method has
that of its function. -/
def span : Phrase → Span
  | .stmt value => value.span
  | .expr value | .method value => value.span
  | .pattern value => value.span
  | .declarator value => value.span
  | .switchCase (.mk _ _ span) => span
  | .member (.method _ _ function) => function.span
  | .member (.field _ _ _ span) => span

/-- What a statement consists of. -/
def childrenOfStmt : Stmt → List Phrase
  | .block body _ => body.map .stmt
  | .declare _ declarators _ => declarators.map .declarator
  | .functionDecl _ params _ body _ => params.map .pattern ++ [.stmt body]
  | .ifStmt test thenBody elseBody _ =>
    .expr test :: .stmt thenBody :: elseBody.toList.map .stmt
  | .whileStmt test body _ => [.expr test, .stmt body]
  | .doWhileStmt body test _ => [.stmt body, .expr test]
  | .forStmt init test update body _ =>
    init.toList.map .stmt ++ (test.toList.map .expr ++ (update.toList.map .expr ++ [.stmt body]))
  | .forEachStmt _ _ binding collection body _ =>
    [.pattern binding, .expr collection, .stmt body]
  | .returnStmt value _ => value.toList.map .expr
  | .throwStmt value _ => [.expr value]
  | .tryStmt body _ catchBody finallyBody _ =>
    .stmt body :: (catchBody.toList.map .stmt ++ finallyBody.toList.map .stmt)
  | .exprStmt e _ => [.expr e]
  | .switchStmt discriminant cases _ => .expr discriminant :: cases.map .switchCase
  | .classDecl _ superclass members _ => superclass.toList.map .expr ++ members.map .member
  | .labeled _ body _ => [.stmt body]
  | .breakStmt _ | .continueStmt _ | .emptyStmt _ | .unknown _ _ => []

/-- What a pattern consists of. -/
def childrenOfPattern : Pattern → List Phrase
  | .ident _ _ => []
  | .array elements _ => elements.flatMap fun element => element.toList.map .pattern
  | .object properties _ => properties.map fun property => .pattern property.2
  | .rest target _ => [.pattern target]
  | .withDefault target value _ => [.pattern target, .expr value]

/-- What an expression consists of. -/
def childrenOfExpr : Expr → List Phrase
  | .bool _ _ | .number _ _ | .string _ _ | .null _ | .regex _ _ _ | .ident _ _ => []
  | .template _ exprs _ | .list exprs _ | .sequence exprs _ => exprs.map .expr
  | .object properties _ => properties.map fun property => ofProperty property.2.1 property.2.2
  | .member object _ _ _ _ => [.expr object]
  | .index object index _ => [.expr object, .expr index]
  | .call callee args _ | .construct callee args _ => .expr callee :: args.map .expr
  | .function _ params _ _ body _ => params.map .pattern ++ [ofBody body]
  | .await inner _ | .spread inner _ => [.expr inner]
  | .unary _ operand _ => [.expr operand]
  | .update _ _ target _ => [.expr target]
  | .binary _ left right _ => [.expr left, .expr right]
  | .assign _ target value _ => [.expr target, .expr value]
  | .ternary condition consequent alternate _ =>
    [.expr condition, .expr consequent, .expr alternate]

/-- The phrases that a phrase directly consists of, in the order in which they are
written. -/
def children : Phrase → List Phrase
  | .stmt value => childrenOfStmt value
  | .expr value | .method value => childrenOfExpr value
  | .pattern value => childrenOfPattern value
  | .declarator (.mk target init _) => .pattern target :: init.toList.map .expr
  | .switchCase (.mk test body _) => test.toList.map .expr ++ body.map .stmt
  | .member (.method _ _ function) => [.method function]
  | .member (.field _ _ value _) => value.toList.map .expr

/-- The names that a phrase itself gives or refers to: those of variables, functions,
classes and labels, but no keys. -/
def names : Phrase → List String
  | .stmt (.functionDecl name _ _ _ _) | .stmt (.classDecl name _ _ _) => [name]
  | .stmt (.labeled label _ _) => [label]
  | .stmt (.tryStmt _ catchVar _ _ _) => catchVar.toList
  | .expr (.ident name _) | .pattern (.ident name _) => [name]
  | .expr (.function name _ _ _ _ _) => name.toList
  | _ => []

/-! ## All phrases -/

/-- A property holds of a phrase and of all phrases inside it. -/
inductive Everywhere (P : Phrase → Prop) : Phrase → Prop where
  | intro {phrase : Phrase} (here : P phrase)
      (inside : ∀ child ∈ phrase.children, Everywhere P child) : Everywhere P phrase

namespace Everywhere

variable {P Q : Phrase → Prop} {phrase : Phrase}

theorem here (h : phrase.Everywhere P) : P phrase := by
  cases h with
  | intro here _ => exact here

theorem inside (h : phrase.Everywhere P) : ∀ child ∈ phrase.children, child.Everywhere P := by
  cases h with
  | intro _ inside => exact inside

theorem imp (hPQ : ∀ phrase, P phrase → Q phrase) (h : phrase.Everywhere P) :
    phrase.Everywhere Q := by
  induction h with
  | intro here _ ih => exact .intro (hPQ _ here) ih

theorem and (h : phrase.Everywhere P) (hother : phrase.Everywhere Q) :
    phrase.Everywhere fun phrase => P phrase ∧ Q phrase := by
  induction h with
  | intro here _ ih =>
      exact .intro ⟨here, hother.here⟩ fun child hchild =>
        ih child hchild (hother.inside child hchild)

/-- What holds everywhere in a phrase holds everywhere in the phrases inside it. -/
theorem everywhere (h : phrase.Everywhere P) : phrase.Everywhere (Everywhere P) := by
  induction h with
  | intro here inside ih => exact .intro (.intro here inside) ih

end Everywhere

end Phrase

/-- A property holds of all phrases of a program. -/
def Program.Everywhere (P : Phrase → Prop) (program : Program) : Prop :=
  ∀ stmt ∈ program.body, Phrase.Everywhere P (.stmt stmt)

end EventLoop.Script
