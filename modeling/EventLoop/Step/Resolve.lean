import EventLoop.Number.Binary
import EventLoop.Step.Context

/-!
# Resolving values

What an expression is worth without running it: a literal is worth itself, a
name what the table says, and an arithmetic operation on two number literals
its result.  All else stays unresolved, and so does a result that is no finite
number.
-/

namespace EventLoop

open Script

/-- The result of an arithmetic operator, if it is one and the result is
finite. -/
def arithmetic? (op : BinaryOp) (left right : Float) : Option Float :=
  let result? := match op with
    | .add => some (left + right)
    | .sub => some (left - right)
    | .mul => some (left * right)
    | .div => some (left / right)
    | .mod => some (Number.remainder left right)
    | .pow => some (left.pow right)
    | _ => none
  result?.filter Float.isFinite

/-- The value of a literal; a negated number counts as one. -/
def literalValue? : Expr → Option Value
  | .number value _ => some (.number value)
  | .string value _ => some (.text value)
  | .bool value _ => some (.bool value)
  | .null _ => some .null
  | .template pieces [] _ => some (.text (String.join pieces))
  | .unary .neg (.number value _) _ => some (.number (-value))
  | _ => none

/-- The value of a literal number. -/
def literalNumber? (e : Expr) : Option Float :=
  (literalValue? e).bind Value.number?

/-- The value of a name, if the table knows it. -/
def knownValue? (bindings : Table Value) (name : String) : Option Value :=
  (bindings.get? name).filter Value.isLiteral

/-- The value of an expression that is no literal. -/
def resolveCompound (bindings : Table Value) (e : Expr) : Value :=
  match e with
  | .ident name _ =>
    if name = "undefined" then .undefined
    else (knownValue? bindings name).getD (.unresolved name)
  | .binary op left right _ =>
    match literalNumber? left, literalNumber? right with
    | some a, some b =>
      match arithmetic? op a b with
      | some result => .number result
      | none => .unresolved e.render
    | _, _ => .unresolved e.render
  | _ => .unresolved e.render

/-- The value that an expression gives to a variable. -/
def resolve (bindings : Table Value) (e : Expr) : Value :=
  (literalValue? e).getD (resolveCompound bindings e)

mutual

/-- An argument as a console prints it. -/
def displayArg (bindings : Table Value) : Expr → String
  | .template pieces exprs _ => displayPieces bindings pieces exprs
  | .ident name _ =>
    match knownValue? bindings name with
    | some value => value.display
    | none => name
  | e =>
    match literalValue? e with
    | some value => value.display
    | none => e.render

/-- The pieces of a template, with what stands between them printed. -/
def displayPieces (bindings : Table Value) : List String → List Expr → String
  | [], _ => ""
  | pieces, [] => String.join pieces
  | piece :: pieces, e :: es => piece ++ displayArg bindings e ++ displayPieces bindings pieces es

end

/-- What a console prints for some arguments. -/
def consoleText (bindings : Table Value) (args : List Expr) : String :=
  " ".intercalate (args.map (displayArg bindings))

/-- The delay of a timer without a usable one. -/
def defaultDelayMs : Nat := 1000

/-- The time that a network request takes. -/
def networkDelayMs : Nat := 2000

/-- The number that a timer's second argument stands for. -/
def delayNumber? (bindings : Table Value) (args : List Expr) : Option Float :=
  args[1]?.bind fun e =>
    match e with
    | .ident name _ => (bindings.get? name).bind Value.number?
    | _ => literalNumber? e

/-- The delay of a timer in whole milliseconds, cut off below and at the
greatest number of a record. -/
def timerDelayMs (bindings : Table Value) (args : List Expr) : Nat :=
  match delayNumber? bindings args with
  | some ms => if ms.isFinite && 0 ≤ ms then ms.toUInt64.toNat else defaultDelayMs
  | none => defaultDelayMs

end EventLoop
