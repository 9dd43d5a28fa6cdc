import EventLoop.Table
import EventLoop.Value

/-!
# Steps

A step is one thing that a script does to an event loop: which queue it goes
to, after which delay, and what it prints or binds.  Steps are made once, from
the text of the script, and consumed in the order in which they were made.
-/

namespace EventLoop

/-- The four containers of tasks of an event loop. -/
inductive Queue where
  | callStack
  | pendingAsync
  | callbackQueue
  | deferredQueue
  deriving DecidableEq

namespace Queue

/-- The containers in the order in which they are searched. -/
def all : List Queue := [.callStack, .pendingAsync, .callbackQueue, .deferredQueue]

/-- The name of a container in records and messages. -/
def name : Queue → String
  | .callStack => "callStack"
  | .pendingAsync => "pendingAsync"
  | .callbackQueue => "callbackQueue"
  | .deferredQueue => "deferredQueue"

/-- The container of a name, which may start with a capital letter.  Any other
name stands for the call stack. -/
def ofName (name : String) : Queue :=
  if name = "pendingAsync" ∨ name = "PendingAsync" then .pendingAsync
  else if name = "callbackQueue" ∨ name = "CallbackQueue" then .callbackQueue
  else if name = "deferredQueue" ∨ name = "DeferredQueue" then .deferredQueue
  else .callStack

end Queue

/-- How urgent a task of the deferred queue is. -/
inductive Priority where
  | normal
  | high
  deriving DecidableEq

/-- The name of a priority in records. -/
def Priority.name : Priority → String
  | .normal => "normal"
  | .high => "high"

/-- What a step does, as far as scheduling is concerned. -/
inductive Action where
  | console
  | timer
  | deferred
  | network
  | variableDeclaration
  | variableAssignment
  | functionDeclaration
  | functionCall
  | conditional
  | loop
  | statement
  | error
  deriving DecidableEq

namespace Action

/-- All actions. -/
def all : List Action :=
  [.console, .timer, .deferred, .network, .variableDeclaration, .variableAssignment,
   .functionDeclaration, .functionCall, .conditional, .loop, .statement, .error]

/-- The name of an action in records. -/
def name : Action → String
  | .console => "console"
  | .timer => "timer"
  | .deferred => "deferred"
  | .network => "network"
  | .variableDeclaration => "variableDeclaration"
  | .variableAssignment => "variableAssignment"
  | .functionDeclaration => "functionDeclaration"
  | .functionCall => "functionCall"
  | .conditional => "conditional"
  | .loop => "loop"
  | .statement => "statement"
  | .error => "error"

end Action

/-- The kind of syntax that a step was made from. -/
inductive NodeKind where
  | variableDeclaration
  | functionDeclaration
  | ifStatement
  | whileStatement
  | doWhileStatement
  | forStatement
  | forOfStatement
  | forInStatement
  | returnStatement
  | throwStatement
  | breakStatement
  | continueStatement
  | tryStatement
  | blockStatement
  | emptyStatement
  | switchStatement
  | classDeclaration
  | unsupportedStatement
  | expressionStatement
  | callExpression
  | newExpression
  | awaitExpression
  | error
  deriving DecidableEq

namespace NodeKind

/-- All kinds of nodes. -/
def all : List NodeKind :=
  [.variableDeclaration, .functionDeclaration, .ifStatement, .whileStatement, .doWhileStatement,
   .forStatement, .forOfStatement, .forInStatement, .returnStatement, .throwStatement,
   .breakStatement, .continueStatement, .tryStatement, .blockStatement, .emptyStatement,
   .switchStatement, .classDeclaration, .unsupportedStatement, .expressionStatement,
   .callExpression, .newExpression, .awaitExpression, .error]

/-- The name of a kind in records. -/
def name : NodeKind → String
  | .variableDeclaration => "variableDeclaration"
  | .functionDeclaration => "functionDeclaration"
  | .ifStatement => "ifStatement"
  | .whileStatement => "whileStatement"
  | .doWhileStatement => "doWhileStatement"
  | .forStatement => "forStatement"
  | .forOfStatement => "forOfStatement"
  | .forInStatement => "forInStatement"
  | .returnStatement => "returnStatement"
  | .throwStatement => "throwStatement"
  | .breakStatement => "breakStatement"
  | .continueStatement => "continueStatement"
  | .tryStatement => "tryStatement"
  | .blockStatement => "blockStatement"
  | .emptyStatement => "emptyStatement"
  | .switchStatement => "switchStatement"
  | .classDeclaration => "classDeclaration"
  | .unsupportedStatement => "unsupportedStatement"
  | .expressionStatement => "expressionStatement"
  | .callExpression => "callExpression"
  | .newExpression => "newExpression"
  | .awaitExpression => "awaitExpression"
  | .error => "error"

end NodeKind

/-- One step of a script. -/
structure Step where
  kind : NodeKind
  /-- The line of the script, counted from one. -/
  sourceLine : Nat
  description : String
  action : Action
  isAsync : Bool := false
  delayMs : Nat := 0
  targetQueue : Queue := .callStack
  priority : Priority := .normal
  outputPayload : Option String := none
  boundVariables : Table Value := .empty

/-- The step that stands for a script that cannot be read. -/
def Step.ofParseError (message : String) (line : Nat) : Step :=
  { kind := .error
    sourceLine := line
    description := message
    action := .error
    outputPayload := some message }

end EventLoop
