import EventLoop.Number.Decimal
import EventLoop.Script.Program
import EventLoop.Text.Quoted

/-!
# Rendering

The source text of expressions and patterns in a compact form, for
descriptions and for values that are not known.  Bodies of functions are left
out.

Parentheses stand where the grouping of operators asks for them: around an
operand that binds less tightly than its operator, and around one that binds
as tightly on the side to which the operator does not group.
-/

namespace EventLoop.Script

/-- A text in parentheses, where they are needed. -/
def parenthesized (needed : Bool) (s : String) : String :=
  if needed then "(" ++ s ++ ")" else s

/-- Texts with a comma between. -/
def commaSeparated (texts : List String) : String :=
  ", ".intercalate texts

/-- Texts with commas between, in braces. -/
def braced (texts : List String) : String :=
  if texts.isEmpty then "\x7b\x7d" else "\x7b " ++ commaSeparated texts ++ " \x7d"

namespace Expr

/-- Whether an expression needs parentheses as an operand, an object or a
callee. -/
def isLoose : Expr → Bool
  | .binary _ _ _ _ | .ternary _ _ _ _ | .assign _ _ _ _ | .function _ _ _ _ _ _ | .await _ _
  | .unary _ _ _ | .sequence _ _ => true
  | _ => false

/-- Whether an expression is a list of expressions with commas between. -/
def isSequence : Expr → Bool
  | .sequence _ _ => true
  | _ => false

/-- Whether an operand of a binary operator needs parentheses.  Powers group
to the right, all other operators to the left. -/
def needsGrouping (op : BinaryOp) (isRight : Bool) : Expr → Bool
  | .binary inner _ _ _ =>
    inner.precedence < op.precedence
      || (inner.precedence = op.precedence && (isRight != (op = .pow)))
  | .ternary _ _ _ _ | .assign _ _ _ _ | .function _ _ _ _ _ _ => true
  | _ => false

/-- Whether a property is written without its key. -/
def standsFor (key : String) : Expr → Bool
  | .ident name _ => name = key
  | .spread _ _ => true
  | _ => false

end Expr

/-- Whether a property of a pattern is written without its key. -/
def Pattern.standsFor (key : String) : Pattern → Bool
  | .ident name _ => name = key
  | .withDefault target _ _ => target.name? = some key
  | .rest _ _ => true
  | _ => false

mutual

/-- The source text of an expression. -/
def Expr.render : Expr → String
  | .bool value _ => if value then "true" else "false"
  | .number value _ => Number.formatNumber value
  | .string value _ => Text.quote value
  | .null _ => "null"
  | .template pieces exprs _ => "\x60" ++ renderTemplate pieces exprs ++ "\x60"
  | .regex pattern flags _ => "/" ++ pattern ++ "/" ++ flags
  | .list elements _ => "[" ++ commaSeparated (renderItems elements) ++ "]"
  | .object properties _ => braced (renderProperties properties)
  | .ident name _ => name
  | .member owner property _ isOptional _ =>
    parenthesized owner.isLoose owner.render ++ (if isOptional then "?." else ".") ++ property
  | .index owner index _ =>
    parenthesized owner.isLoose owner.render ++ "[" ++ index.render ++ "]"
  | .call callee args _ =>
    parenthesized callee.isLoose callee.render ++ "(" ++ commaSeparated (renderItems args) ++ ")"
  | .construct callee args _ =>
    "new " ++ callee.render ++ "(" ++ commaSeparated (renderItems args) ++ ")"
  | .await inner _ => "await " ++ parenthesized inner.isLoose inner.render
  | .function name params isAsync isArrow body _ =>
    let before := if isAsync then "async " else ""
    let params := "(" ++ commaSeparated (renderPatterns params) ++ ")"
    if isArrow then before ++ params ++ " => " ++ body.render
    else
      let name := match name with
        | some name => " " ++ name
        | none => ""
      before ++ "function" ++ name ++ params ++ " " ++ body.render
  | .unary op operand _ => op.symbol ++ parenthesized operand.isLoose operand.render
  | .update op leading target _ =>
    let target := parenthesized target.isLoose target.render
    if leading then op.symbol ++ target else target ++ op.symbol
  | .binary op left right _ =>
    parenthesized (left.needsGrouping op false) left.render ++ " " ++ op.symbol ++ " "
      ++ parenthesized (right.needsGrouping op true) right.render
  | .assign op target value _ => target.render ++ " " ++ op.symbol ++ " " ++ value.render
  | .ternary condition consequent alternate _ =>
    condition.render ++ " ? " ++ consequent.render ++ " : " ++ alternate.render
  | .spread inner _ => "..." ++ parenthesized inner.isLoose inner.render
  | .sequence exprs _ => commaSeparated (renderItems exprs)

/-- The source text of a function's body; a block is left out. -/
def FunctionBody.render : FunctionBody → String
  | .block _ => "\x7b … \x7d"
  | .expr value => value.render

/-- The pieces of a template with the expressions between them. -/
def renderTemplate : List String → List Expr → String
  | [], _ => ""
  | pieces, [] => String.join pieces
  | piece :: pieces, e :: es => piece ++ "$\x7b" ++ e.render ++ "\x7d" ++ renderTemplate pieces es

/-- Arguments or elements. -/
def renderItems : List Expr → List String
  | [] => []
  | e :: es => parenthesized e.isSequence e.render :: renderItems es

/-- The properties of an object. -/
def renderProperties : List (String × Span × Expr) → List String
  | [] => []
  | (key, _, value) :: others =>
    (if value.standsFor key then value.render else key ++ ": " ++ value.render)
      :: renderProperties others

/-- The source text of a pattern. -/
def Pattern.render : Pattern → String
  | .ident name _ => name
  | .array elements _ => "[" ++ commaSeparated (renderElements elements) ++ "]"
  | .object properties _ => braced (renderTargets properties)
  | .rest target _ => "..." ++ target.render
  | .withDefault target value _ => target.render ++ " = " ++ value.render

/-- Patterns, such as the parameters of a function. -/
def renderPatterns : List Pattern → List String
  | [] => []
  | p :: ps => p.render :: renderPatterns ps

/-- The elements of an array pattern, where a hole is an empty text. -/
def renderElements : List (Option Pattern) → List String
  | [] => []
  | none :: ps => "" :: renderElements ps
  | some p :: ps => p.render :: renderElements ps

/-- The properties of an object pattern. -/
def renderTargets : List (String × Pattern) → List String
  | [] => []
  | (key, target) :: others =>
    (if target.standsFor key then target.render else key ++ ": " ++ target.render)
      :: renderTargets others

end

/-- The source text of a list of parameters. -/
def renderParams (params : List Pattern) : String :=
  commaSeparated (renderPatterns params)

/-- The source text of a declarator. -/
def Declarator.render (declarator : Declarator) : String :=
  match declarator.init with
  | some init => declarator.target.render ++ " = " ++ init.render
  | none => declarator.target.render

end EventLoop.Script
