import EventLoop.Step.Resolve
import EventLoop.Text.Blank
import EventLoop.Text.Start

/-!
# Classifying statements and expressions

`classify` makes the step of a statement or an expression from its shape and
from what is known at its place.  Calls are told apart by the names they go
by: console output, timers, network requests and deferred work each have a
queue of their own, and calls of declared functions are told from other calls.
All else is a plain statement on the call stack.

`nestedAction?` says which expressions deserve a step of their own when they
occur inside others.
-/

namespace EventLoop

open Script

/-! ## The shape of a call -/

/-- Methods of the console that print. -/
def consoleMethods : List String := ["log", "info", "warn", "error", "debug", "table"]

/-- Functions that start a timer. -/
def timerFunctions : List String := ["setTimeout", "setInterval"]

/-- Functions that send a request. -/
def networkFunctions : List String := ["fetch"]

/-- Functions that put work into the deferred queue. -/
def deferredFunctions : List String := ["queueMicrotask", "process.nextTick"]

/-- Methods that go on after a promise. -/
def continuations : List String := ["then", "catch", "finally"]

/-- The names of the global object. -/
def globalObjects : List String := ["window.", "globalThis.", "global."]

/-- What a call or an await is about. -/
inductive CallShape where
  | console
  | timer (name : String)
  | network (name : String)
  | deferred
  | await
  | declared (name : String)
  | other
  deriving DecidableEq

namespace CallShape

/-- The action of a shape. -/
def action : CallShape → Action
  | .console => .console
  | .timer _ => .timer
  | .network _ => .network
  | .deferred | .await => .deferred
  | .declared _ => .functionCall
  | .other => .statement

end CallShape

/-- A name without the global object in front. -/
def withoutGlobal (name : String) : String :=
  match globalObjects.findSome? fun object => Text.after? object.toList name.toList with
  | some rest => String.ofList rest
  | none => name

/-- What a call by a name is about. -/
def shapeOfName (known : Extraction) (name : String) : CallShape :=
  match Text.after? "console.".toList name.toList with
  | some method => if consoleMethods.contains (String.ofList method) then .console else .other
  | none =>
    if timerFunctions.contains name then .timer name
    else if networkFunctions.contains name then .network name
    else if deferredFunctions.contains name then .deferred
    else if (Text.after? "Promise.".toList name.toList).isSome then .deferred
    else if known.functions.contains name then .declared name
    else .other

/-- Whether a callee is a method that goes on after a promise. -/
def isContinuation : Expr → Bool
  | .member _ property _ _ _ => continuations.contains property
  | _ => false

/-- What an expression is about, if it is a call or an await. -/
def callShape? (known : Extraction) : Expr → Option CallShape
  | .await _ _ => some .await
  | .construct callee _ _ =>
    if callee.dottedName?.map withoutGlobal = some "Promise" then some .deferred else some .other
  | .call callee _ _ =>
    if isContinuation callee then some .deferred
    else
      match callee.dottedName? with
      | some name => some (shapeOfName known (withoutGlobal name))
      | none => some .other
  | _ => none

/-- The action of an expression that deserves a step of its own wherever it
occurs. -/
def nestedAction? (known : Extraction) (e : Expr) : Option Action :=
  match callShape? known e with
  | some .other => none
  | some shape => some shape.action
  | none => none

/-! ## Steps of expressions -/

/-- The arguments of a call. -/
def argsOfCall : Expr → List Expr
  | .call _ args _ => args
  | _ => []

/-- Whether an expression is a call of a function. -/
def isCall : Expr → Bool
  | .call _ _ _ => true
  | _ => false

/-- The step of a call or an await. -/
def CallShape.step (shape : CallShape) (known : Extraction) (kind : NodeKind) (e : Expr) : Step :=
  let sourceLine := e.span.line
  let action := shape.action
  let source := e.render
  match shape with
  | .console =>
    { kind, sourceLine, action
      description := "Log " ++ source
      outputPayload := some (consoleText known.bindings (argsOfCall e)) }
  | .timer name =>
    let delayMs := timerDelayMs known.bindings (argsOfCall e)
    { kind, sourceLine, action, delayMs
      description := "Register " ++ name ++ " for " ++ toString delayMs ++ "ms"
      isAsync := true
      targetQueue := .pendingAsync }
  | .network name =>
    { kind, sourceLine, action
      description := "Start " ++ name ++ " request: " ++ source
      isAsync := true
      delayMs := networkDelayMs
      targetQueue := .pendingAsync }
  | .deferred | .await =>
    { kind, sourceLine, action
      description := match e with
        | .await inner _ => "Await " ++ inner.render
        | _ => "Queue deferred " ++ source
      isAsync := true
      targetQueue := .deferredQueue
      priority := .high }
  | .declared name =>
    { kind, sourceLine, action, description := "Call " ++ name ++ "() : " ++ source }
  | .other => { kind, sourceLine, action, description := "Call " ++ source }

/-- The value that an assignment binds. -/
def assignedValue (known : Extraction) (op : AssignOp) (name : String) (value : Expr) : Value :=
  if op = .assign then resolve known.bindings value
  else .unresolved (name ++ " " ++ op.arithmetic ++ " " ++ value.render)

/-- The table of one variable, if the target is a name. -/
def bindingOf (target : Expr) (value : String → Value) : Table Value :=
  match target with
  | .ident name _ => Table.empty.insert name (value name)
  | _ => .empty

/-- The step of an expression, as a node of a kind. -/
def classifyExpr (known : Extraction) (kind : NodeKind) (e : Expr) : Step :=
  let sourceLine := e.span.line
  match e with
  | .assign op target value _ =>
    { kind, sourceLine
      action := .variableAssignment
      description := "Assign " ++ e.render
      boundVariables := bindingOf target fun name => assignedValue known op name value }
  | .update op _ target _ =>
    { kind, sourceLine
      action := .variableAssignment
      description := "Update " ++ e.render
      boundVariables := bindingOf target fun name =>
        .unresolved (name ++ " " ++ op.arithmetic ++ " 1") }
  | _ =>
    match callShape? known e with
    | some shape => shape.step known kind e
    | none => { kind, sourceLine, action := .statement, description := "Evaluate " ++ e.render }

/-- The kind of an expression that stands for itself. -/
def kindOfExpr : Expr → NodeKind
  | .call _ _ _ => .callExpression
  | .construct _ _ _ => .newExpression
  | .await _ _ => .awaitExpression
  | _ => .expressionStatement

/-! ## Steps of statements -/

/-- The number of characters of a raw statement that a description shows. -/
def excerptLength : Nat := 60

/-- The beginning of a raw statement on one line. -/
def excerpt (text : String) : String :=
  let flat := Text.collapse text.toList
  if flat.length ≤ excerptLength then String.ofList flat
  else String.ofList (Text.trimEnd (flat.take excerptLength)) ++ "…"

/-- The values that a declarator binds, where a name of a pattern is bound to
the whole declarator. -/
def declaredValues (scope : Table Value) (declarator : Declarator) : List (String × Value) :=
  match declarator.target.name? with
  | some name =>
    [(name, match declarator.init with
      | some init => resolve scope init
      | none => .undefined)]
  | none => declarator.target.names.map fun name => (name, .unresolved declarator.render)

/-- The values that declarators bind, each of which sees those before it. -/
def boundByAll (scope bound : Table Value) : List Declarator → Table Value
  | [] => bound
  | declarator :: rest =>
    let values := declaredValues scope declarator
    boundByAll (scope.insertAll values) (bound.insertAll values) rest

/-- A declaration as it is written. -/
def renderDeclaration (kind : VarKind) (declarators : List Declarator) : String :=
  kind.keyword ++ " " ++ commaSeparated (declarators.map Declarator.render)

/-- The start of a counting loop as it is written. -/
def renderInit : Option Stmt → String
  | some (.declare kind declarators _) => renderDeclaration kind declarators
  | some (.exprStmt e _) => e.render
  | _ => ""

/-- An optional clause of a counting loop as it is written. -/
def renderClause (e : Option Expr) : String :=
  (e.map Expr.render).getD ""

/-- A plain step on the call stack. -/
def plainStep (kind : NodeKind) (action : Action) (span : Span) (description : String) : Step :=
  { kind, action, sourceLine := span.line, description }

/-- The step of a statement. -/
def classifyStmt (known : Extraction) : Stmt → Step
  | .declare kind declarators span =>
    { plainStep .variableDeclaration .variableDeclaration span
        ("Declare " ++ renderDeclaration kind declarators) with
      boundVariables := boundByAll known.bindings .empty declarators }
  | .functionDecl name params isAsync _ span =>
    plainStep .functionDeclaration .functionDeclaration span <|
      "Declare " ++ (if isAsync then "async " else "") ++ "function " ++ name ++ "("
        ++ renderParams params ++ ")"
  | .ifStmt test _ _ span =>
    plainStep .ifStatement .conditional span ("Check condition: " ++ test.render)
  | .whileStmt test _ span => plainStep .whileStatement .loop span ("Loop while " ++ test.render)
  | .doWhileStmt _ test span =>
    plainStep .doWhileStatement .loop span ("Loop do … while " ++ test.render)
  | .forStmt init test update _ span =>
    plainStep .forStatement .loop span <|
      "Loop for (" ++ renderInit init ++ "; " ++ renderClause test ++ "; " ++ renderClause update
        ++ ")"
  | .forEachStmt kind varKind binding collection _ span =>
    let keyword := match varKind with
      | some kind => kind.keyword ++ " "
      | none => ""
    plainStep (if kind = .values then .forOfStatement else .forInStatement) .loop span <|
      "Loop for (" ++ keyword ++ binding.render ++ " " ++ kind.word ++ " " ++ collection.render
        ++ ")"
  | .returnStmt value span =>
    plainStep .returnStatement .statement span <|
      match value with
      | some value => "Return " ++ value.render
      | none => "Return"
  | .throwStmt value span => plainStep .throwStatement .statement span ("Throw " ++ value.render)
  | .breakStmt span => plainStep .breakStatement .statement span "Break out of loop"
  | .continueStmt span =>
    plainStep .continueStatement .statement span "Continue to next iteration"
  | .tryStmt _ catchVar _ _ span =>
    plainStep .tryStatement .statement span <|
      match catchVar with
      | some name => "Enter try block (errors caught as " ++ name ++ ")"
      | none => "Enter try block"
  | .block body span =>
    plainStep .blockStatement .statement span
      ("Enter block of " ++ toString body.length ++ " statement(s)")
  | .emptyStmt span => plainStep .emptyStatement .statement span "Empty statement"
  | .switchStmt discriminant cases span =>
    plainStep .switchStatement .conditional span <|
      "Switch on " ++ discriminant.render ++ " (" ++ toString cases.length ++ " case(s))"
  | .classDecl name superclass _ span =>
    plainStep .classDeclaration .functionDeclaration span <|
      match superclass with
      | some base => "Declare class " ++ name ++ " extends " ++ base.render
      | none => "Declare class " ++ name
  | .labeled label body _ =>
    let step := classifyStmt known body
    { step with description := label ++ ": " ++ step.description }
  | .unknown text span =>
    plainStep .unsupportedStatement .statement span ("Unsupported statement: " ++ excerpt text)
  | .exprStmt e _ => classifyExpr known .expressionStatement e

/-- Adds where a step happens to its description. -/
def Step.placedIn (step : Step) (ancestry : List Ancestor) : Step :=
  match ancestry with
  | ancestor :: _ =>
    { step with description := step.description ++ " (" ++ ancestor.describe ++ ")" }
  | [] => step

/-- The step of a node. -/
def classify (known : Extraction) (ancestry : List Ancestor) (node : Node) : Step :=
  Step.placedIn
    (match node with
     | .stmt stmt => classifyStmt known stmt
     | .expr e => classifyExpr known (kindOfExpr e) e)
    ancestry

end EventLoop
