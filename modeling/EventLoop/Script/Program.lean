import EventLoop.Source.Span

/-!
# Programs

The abstract form of a script: binding patterns, expressions and statements,
each with the span of source text it was read from.
-/

namespace EventLoop.Script

/-- The keyword of a declaration. -/
inductive VarKind where
  | letVar
  | constVar
  | varVar
  deriving DecidableEq

/-- A declaration's keyword as it is written. -/
def VarKind.keyword : VarKind → String
  | .letVar => "let"
  | .constVar => "const"
  | .varVar => "var"

/-- What a loop over a collection runs through. -/
inductive EachKind where
  | keys
  | values
  deriving DecidableEq

/-- The word between the variable and the collection of a loop. -/
def EachKind.word : EachKind → String
  | .keys => "in"
  | .values => "of"

/-- An operator between two operands. -/
inductive BinaryOp where
  | add
  | sub
  | mul
  | div
  | mod
  | pow
  | eq
  | strictEq
  | ne
  | strictNe
  | lt
  | lte
  | gt
  | gte
  | instanceOf
  | isIn
  | and
  | or
  | nullish
  deriving DecidableEq

namespace BinaryOp

/-- An operator as it is written. -/
def symbol : BinaryOp → String
  | .add => "+"
  | .sub => "-"
  | .mul => "*"
  | .div => "/"
  | .mod => "%"
  | .pow => "**"
  | .eq => "=="
  | .strictEq => "==="
  | .ne => "!="
  | .strictNe => "!=="
  | .lt => "<"
  | .lte => "<="
  | .gt => ">"
  | .gte => ">="
  | .instanceOf => "instanceof"
  | .isIn => "in"
  | .and => "&&"
  | .or => "||"
  | .nullish => "??"

/-- How tightly an operator binds. -/
def precedence : BinaryOp → Nat
  | .nullish => 1
  | .or => 2
  | .and => 3
  | .eq | .strictEq | .ne | .strictNe => 4
  | .lt | .lte | .gt | .gte | .instanceOf | .isIn => 5
  | .add | .sub => 6
  | .mul | .div | .mod => 7
  | .pow => 8

end BinaryOp

/-- An operator before its operand. -/
inductive UnaryOp where
  | not
  | neg
  | plus
  | typeof
  deriving DecidableEq

/-- An operator as it is written before its operand. -/
def UnaryOp.symbol : UnaryOp → String
  | .not => "!"
  | .neg => "-"
  | .plus => "+"
  | .typeof => "typeof "

/-- An operator that counts a variable up or down. -/
inductive UpdateOp where
  | increment
  | decrement
  deriving DecidableEq

namespace UpdateOp

/-- An operator as it is written. -/
def symbol : UpdateOp → String
  | .increment => "++"
  | .decrement => "--"

/-- The arithmetic operator that does the same with one. -/
def arithmetic : UpdateOp → String
  | .increment => "+"
  | .decrement => "-"

end UpdateOp

/-- An assignment, plain or with an operation. -/
inductive AssignOp where
  | assign
  | add
  | sub
  | mul
  | div
  deriving DecidableEq

namespace AssignOp

/-- An operator as it is written. -/
def symbol : AssignOp → String
  | .assign => "="
  | .add => "+="
  | .sub => "-="
  | .mul => "*="
  | .div => "/="

/-- The operation of an assignment. -/
def arithmetic : AssignOp → String
  | .assign => "="
  | .add => "+"
  | .sub => "-"
  | .mul => "*"
  | .div => "/"

end AssignOp

mutual

/-- What a declaration, a parameter or a loop binds names with. -/
inductive Pattern where
  | ident (name : String) (span : Span)
  /-- Elements in order, where `none` is a hole. -/
  | array (elements : List (Option Pattern)) (span : Span)
  /-- Keys and targets; the key of a rest property is `...`. -/
  | object (properties : List (String × Pattern)) (span : Span)
  | rest (target : Pattern) (span : Span)
  | withDefault (target : Pattern) (value : Expr) (span : Span)

/-- One target of a declaration with its initial value. -/
inductive Declarator where
  | mk (target : Pattern) (init : Option Expr) (span : Span)

/-- One case of a switch, where the default case has no test. -/
inductive SwitchCase where
  | mk (test : Option Expr) (body : List Stmt) (span : Span)

/-- A member of a class. -/
inductive ClassMember where
  /-- A method, whose function carries its name. -/
  | method (name : String) (isStatic : Bool) (function : Expr)
  | field (name : String) (isStatic : Bool) (value : Option Expr) (span : Span)

/-- The body of a function. -/
inductive FunctionBody where
  | block (body : Stmt)
  | expr (value : Expr)

/-- A statement. -/
inductive Stmt where
  | block (body : List Stmt) (span : Span)
  | declare (kind : VarKind) (declarators : List Declarator) (span : Span)
  | functionDecl (name : String) (params : List Pattern) (isAsync : Bool) (body : Stmt)
      (span : Span)
  | ifStmt (test : Expr) (thenBody : Stmt) (elseBody : Option Stmt) (span : Span)
  | whileStmt (test : Expr) (body : Stmt) (span : Span)
  | doWhileStmt (body : Stmt) (test : Expr) (span : Span)
  | forStmt (init : Option Stmt) (test update : Option Expr) (body : Stmt) (span : Span)
  | forEachStmt (kind : EachKind) (varKind : Option VarKind) (binding : Pattern)
      (collection : Expr) (body : Stmt) (span : Span)
  | returnStmt (value : Option Expr) (span : Span)
  | throwStmt (value : Expr) (span : Span)
  | tryStmt (body : Stmt) (catchVar : Option String) (catchBody finallyBody : Option Stmt)
      (span : Span)
  | exprStmt (expr : Expr) (span : Span)
  | breakStmt (span : Span)
  | continueStmt (span : Span)
  | emptyStmt (span : Span)
  | switchStmt (discriminant : Expr) (cases : List SwitchCase) (span : Span)
  | classDecl (name : String) (superclass : Option Expr) (members : List ClassMember)
      (span : Span)
  | labeled (label : String) (body : Stmt) (span : Span)
  /-- A statement that nothing else describes, as its source text. -/
  | unknown (text : String) (span : Span)

/-- An expression. -/
inductive Expr where
  | bool (value : Bool) (span : Span)
  | number (value : Float) (span : Span)
  | string (value : String) (span : Span)
  | null (span : Span)
  /-- A template: the literal pieces, with an expression between each two. -/
  | template (pieces : List String) (exprs : List Expr) (span : Span)
  | regex (pattern flags : String) (span : Span)
  | list (elements : List Expr) (span : Span)
  /-- Keys with their spans, and values; the key of a spread property is `...`. -/
  | object (properties : List (String × Span × Expr)) (span : Span)
  | ident (name : String) (span : Span)
  | member (object : Expr) (property : String) (propertySpan : Span) (optional : Bool)
      (span : Span)
  | index (object index : Expr) (span : Span)
  | call (callee : Expr) (args : List Expr) (span : Span)
  | construct (callee : Expr) (args : List Expr) (span : Span)
  | await (inner : Expr) (span : Span)
  | function (name : Option String) (params : List Pattern) (isAsync isArrow : Bool)
      (body : FunctionBody) (span : Span)
  | unary (op : UnaryOp) (operand : Expr) (span : Span)
  | update (op : UpdateOp) (leading : Bool) (target : Expr) (span : Span)
  | binary (op : BinaryOp) (left right : Expr) (span : Span)
  | assign (op : AssignOp) (target value : Expr) (span : Span)
  | ternary (condition consequent alternate : Expr) (span : Span)
  | spread (inner : Expr) (span : Span)
  | sequence (exprs : List Expr) (span : Span)

end

/-- A whole script: its statements in the order of the text. -/
structure Program where
  body : List Stmt
  span : Span

namespace Pattern

/-- The span of a pattern. -/
def span : Pattern → Span
  | .ident _ span | .array _ span | .object _ span | .rest _ span | .withDefault _ _ span => span

/-- The name of a pattern that is a plain name. -/
def name? : Pattern → Option String
  | .ident name _ => some name
  | _ => none

mutual

/-- The names that a pattern binds, from left to right. -/
def names : Pattern → List String
  | .ident name _ => [name]
  | .array elements _ => namesOfElements elements
  | .object properties _ => namesOfProperties properties
  | .rest target _ => names target
  | .withDefault target _ _ => names target

/-- The names that elements bind. -/
def namesOfElements : List (Option Pattern) → List String
  | [] => []
  | none :: others => namesOfElements others
  | some element :: others => names element ++ namesOfElements others

/-- The names that properties bind. -/
def namesOfProperties : List (String × Pattern) → List String
  | [] => []
  | (_, target) :: others => names target ++ namesOfProperties others

end

end Pattern

namespace Declarator

/-- What a declarator binds names with. -/
def target : Declarator → Pattern
  | .mk target _ _ => target

/-- The initial value. -/
def init : Declarator → Option Expr
  | .mk _ init _ => init

/-- The span of a declarator. -/
def span : Declarator → Span
  | .mk _ _ span => span

end Declarator

/-- The span of a statement. -/
def Stmt.span : Stmt → Span
  | .block _ span | .declare _ _ span | .functionDecl _ _ _ _ span | .ifStmt _ _ _ span
  | .whileStmt _ _ span | .doWhileStmt _ _ span | .forStmt _ _ _ _ span
  | .forEachStmt _ _ _ _ _ span | .returnStmt _ span | .throwStmt _ span
  | .tryStmt _ _ _ _ span | .exprStmt _ span | .breakStmt span | .continueStmt span
  | .emptyStmt span | .switchStmt _ _ span | .classDecl _ _ _ span | .labeled _ _ span
  | .unknown _ span => span

namespace Expr

/-- The span of an expression. -/
def span : Expr → Span
  | .bool _ span | .number _ span | .string _ span | .null span | .template _ _ span
  | .regex _ _ span | .list _ span | .object _ span | .ident _ span | .member _ _ _ _ span
  | .index _ _ span | .call _ _ span | .construct _ _ span | .await _ span
  | .function _ _ _ _ _ span | .unary _ _ span | .update _ _ _ span | .binary _ _ _ span
  | .assign _ _ _ span | .ternary _ _ _ span | .spread _ span | .sequence _ span => span

/-- The dotted name of a name or of members of a name, such as
`console.log`. -/
def dottedName? : Expr → Option String
  | .ident name _ => some name
  | .member owner property _ _ _ => (dottedName? owner).map fun base => base ++ "." ++ property
  | _ => none

end Expr

end EventLoop.Script
