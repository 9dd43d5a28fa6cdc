import EventLoop.Step.Basic

/-!
# Tasks

A task is a step that has been handed to an engine.  It has an id, a status,
and the container it was put into or last moved to.

    waiting → pending → executing → completed or error

Only tasks that wait for a timer start as `waiting`; all others are `pending`
from the start.
-/

namespace EventLoop

/-- What sort of work a task is. -/
inductive TaskKind where
  | script
  | console
  | timer
  | network
  | deferred
  | error
  deriving DecidableEq

namespace TaskKind

/-- The name of a kind in records. -/
def name : TaskKind → String
  | .script => "script"
  | .console => "console"
  | .timer => "timer"
  | .network => "network"
  | .deferred => "deferred"
  | .error => "error"

/-- Actions that need no queue of their own are plain script work. -/
def ofAction : Action → TaskKind
  | .console => .console
  | .timer => .timer
  | .network => .network
  | .deferred => .deferred
  | .error => .error
  | .variableDeclaration | .variableAssignment | .functionDeclaration | .functionCall
  | .conditional | .loop | .statement => .script

end TaskKind

/-- Where a task is in its life. -/
inductive TaskStatus where
  | waiting
  | pending
  | executing
  | completed
  | error
  deriving DecidableEq

/-- The name of a status in records and messages. -/
def TaskStatus.name : TaskStatus → String
  | .waiting => "waiting"
  | .pending => "pending"
  | .executing => "executing"
  | .completed => "completed"
  | .error => "error"

/-- One task of an engine. -/
structure Task where
  id : Nat
  kind : TaskKind
  description : String
  delayMs : Nat
  status : TaskStatus
  /-- The container that the task was put into or last moved to. -/
  queue : Queue
  priority : Priority
  sourceLine : Nat
  payload : Option String
  deriving DecidableEq

namespace Task

/-- How an id is written in messages. -/
def idText (id : Nat) : String :=
  "#" ++ toString id

/-- What a step leaves behind when it is done: its output, or else the values
it binds. -/
def resultOf (step : Step) : Option String :=
  match step.outputPayload with
  | some output => some output
  | none =>
    if step.boundVariables.isEmpty then none
    else some <| ", ".intercalate <|
      step.boundVariables.entries.map fun entry => entry.1 ++ " = " ++ entry.2.describe

/-- The task of a step.  A high priority is kept in the deferred queue only. -/
def ofStep (id : Nat) (step : Step) : Task :=
  { id
    kind := .ofAction step.action
    description := step.description
    delayMs := step.delayMs
    status := if step.targetQueue = .pendingAsync then .waiting else .pending
    queue := step.targetQueue
    priority := if step.targetQueue = .deferredQueue then step.priority else .normal
    sourceLine := step.sourceLine
    payload := resultOf step }

end Task

end EventLoop
