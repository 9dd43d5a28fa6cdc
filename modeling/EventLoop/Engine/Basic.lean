import EventLoop.Engine.Clock
import EventLoop.Engine.Queues
import EventLoop.Engine.Timers
import EventLoop.Engine.Trace

/-!
# The engine of an event loop

An engine holds the four containers, the tasks that are executing, the tasks
that are finished, the virtual clock with its timers, and the trace.  Steps
are submitted as tasks; timers move tasks from the pending tasks to the
callback queue; `next?` names the task that runs next:

1. the oldest task of the deferred queue;
2. or else the oldest task of the callback queue;
3. or else the youngest task of the call stack.

An operation on a task either succeeds or is refused with an `EngineError`.  A
refusal is recorded in the trace as a warning and changes nothing else.
-/

namespace EventLoop

/-- Why an operation on a task was refused. -/
inductive EngineError where
  | taskNotFound (id : Nat)
  | invalidTransition (id : Nat) (current requested : TaskStatus)
  deriving DecidableEq

namespace EngineError

/-- The task that the operation was about. -/
def taskId : EngineError → Nat
  | .taskNotFound id => id
  | .invalidTransition id _ _ => id

/-- The text of a refusal. -/
def message : EngineError → String
  | .taskNotFound id => "task " ++ Task.idText id ++ " not found"
  | .invalidTransition id current requested =>
    "task " ++ Task.idText id ++ " cannot move from " ++ current.name ++ " to " ++ requested.name

end EngineError

/-- The state of an event loop. -/
structure Engine where
  queues : Queues := .empty
  /-- The executing tasks, by increasing id. -/
  inFlight : List Task := []
  /-- The finished tasks, in the order in which they finished. -/
  finished : List Task := []
  clock : Clock := .start
  timers : Timers := .empty
  trace : TraceLog := .withCapacity TraceLog.defaultCapacity
  nextId : Nat := 1
  deriving DecidableEq

namespace Engine

/-- An engine without tasks, whose trace has a capacity. -/
def withTraceCapacity (capacity : Nat) : Engine :=
  { trace := .withCapacity capacity }

/-- An engine without tasks. -/
def new : Engine := withTraceCapacity TraceLog.defaultCapacity

/-- The virtual time. -/
def now (engine : Engine) : Nat := engine.clock.now

/-- Records an event about a task at the present time. -/
def record (engine : Engine) (id : Nat) (kind : TraceKind) (message : String) : Engine :=
  { engine with trace := engine.trace.record engine.now (some id) kind message }

/-- The task with an id, wherever it is. -/
def task? (engine : Engine) (id : Nat) : Option Task :=
  engine.queues.find? id
    <|> engine.inFlight.find? (·.id = id)
    <|> engine.finished.find? (·.id = id)

/-- Whether nothing is queued and nothing is executing. -/
def isIdle (engine : Engine) : Bool :=
  engine.queues.isEmpty && engine.inFlight.isEmpty

/-! ## Submission and selection -/

/-- How a move into a container is told. -/
def arrival (description : String) (queue : Queue) : String :=
  description ++ " → " ++ queue.name

/-- Registers and schedules the timer of a task that waits for one. -/
def startTimer (engine : Engine) (task : Task) : Engine :=
  if task.queue = .pendingAsync then
    let (seq, clock) := engine.clock.register
    { engine with
      clock
      timers := engine.timers.schedule ⟨later engine.now task.delayMs, seq, task.id⟩ }
  else engine

/-- Makes a task of a step and puts it into the container that the step
targets.  A pending task gets a timer. -/
def submit (engine : Engine) (step : Step) : Task × Engine :=
  let task := Task.ofStep engine.nextId step
  let engine := { engine with nextId := engine.nextId + 1 }
  let engine := (engine.startTimer task).record task.id .admitted
    (arrival task.description task.queue)
  (task, { engine with queues := engine.queues.push task })

/-- The task that runs next. -/
def next? (engine : Engine) : Option Task :=
  engine.queues.head? .deferredQueue
    <|> engine.queues.head? .callbackQueue
    <|> engine.queues.last? .callStack

/-! ## Refusals -/

/-- Records a refusal. -/
def report (engine : Engine) (error : EngineError) : Engine :=
  engine.record error.taskId .warning error.message

/-- Why a task cannot move to a status it is not ready for. -/
def refusal (engine : Engine) (id : Nat) (requested : TaskStatus) : EngineError :=
  match engine.task? id with
  | some task => .invalidTransition id task.status requested
  | none => .taskNotFound id

/-- Refuses to move a task. -/
def refuse {α : Type} (engine : Engine) (id : Nat) (requested : TaskStatus) :
    Except EngineError α × Engine :=
  let error := engine.refusal id requested
  (.error error, engine.report error)

/-! ## The life of a task -/

/-- Puts a task among those that execute. -/
def insertInFlight (task : Task) : List Task → List Task
  | [] => [task]
  | first :: rest =>
    if task.id < first.id then task :: first :: rest
    else if first.id < task.id then first :: insertInFlight task rest
    else task :: rest

/-- Takes a pending task out of its container and lets it execute. -/
def start (engine : Engine) (id : Nat) : Except EngineError Task × Engine :=
  match engine.queues.take id with
  | none => engine.refuse id .executing
  | some (task, queues) =>
    if task.status = .pending then
      let task := { task with status := .executing }
      let engine := engine.record id .started ("Started " ++ task.description)
      (.ok task, { engine with queues, inFlight := insertInFlight task engine.inFlight })
    else engine.refuse id .executing

/-- The event that tells the result of a task, if it has one. -/
def recordResult (engine : Engine) (task : Task) : Engine :=
  match task.payload with
  | none => engine
  | some payload =>
    engine.record task.id .result
      (if task.kind = .console then payload else "Result: " ++ payload)

/-- Ends an executing task with success. -/
def complete (engine : Engine) (id : Nat) : Except EngineError Task × Engine :=
  match engine.inFlight.find? (·.id = id) with
  | none => engine.refuse id .completed
  | some task =>
    let task := { task with status := .completed }
    let engine := { engine with inFlight := engine.inFlight.eraseP (·.id = id) }
    let engine := (engine.record id .completed ("Completed " ++ task.description)).recordResult task
    (.ok task, { engine with finished := engine.finished ++ [task] })

/-- Files a task as failed. -/
def fileFailure (engine : Engine) (task : Task) (reason : String) :
    Except EngineError Task × Engine :=
  let task := { task with status := .error }
  let engine := engine.record task.id .error (task.description ++ ": " ++ reason)
  (.ok task, { engine with finished := engine.finished ++ [task] })

/-- Ends a task with a failure, whether it executes or is still queued.  The
timer of a pending task is cancelled. -/
def fail (engine : Engine) (id : Nat) (reason : String) : Except EngineError Task × Engine :=
  match engine.inFlight.find? (·.id = id) with
  | some task =>
    { engine with inFlight := engine.inFlight.eraseP (·.id = id) }.fileFailure task reason
  | none =>
    match engine.queues.take id with
    | none => engine.refuse id .error
    | some (task, queues) =>
      let timers :=
        if engine.queues.locate id = some .pendingAsync then engine.timers.cancel id
        else engine.timers
      { engine with queues, timers }.fileFailure task reason

/-! ## Time -/

/-- Moves a task whose timer has elapsed to the callback queue. -/
def advanceTimer (engine : Engine) (id : Nat) : Except EngineError Unit × Engine :=
  match engine.queues.locate id, engine.queues.take id with
  | some .pendingAsync, some (task, queues) =>
    let task := { task with status := .pending, queue := .callbackQueue }
    let engine := { engine with timers := engine.timers.cancel id }
    let engine := engine.record id .timerElapsed (arrival task.description .callbackQueue)
    (.ok (), { engine with queues := queues.push task })
  | _, _ => engine.refuse id .pending

/-- Lets timers elapse one after the other; the ids of the tasks that moved. -/
def release (engine : Engine) : List Timer → List Nat × Engine
  | [] => ([], engine)
  | timer :: rest =>
    let (moved, engine) := engine.advanceTimer timer.taskId
    let (ids, engine) := engine.release rest
    (match moved with
     | .ok () => timer.taskId :: ids
     | .error _ => ids, engine)

/-- Lets every timer elapse that is due by now. -/
def releaseDue (engine : Engine) : List Nat × Engine :=
  let (due, timers) := engine.timers.popDue engine.now
  { engine with timers }.release due

/-- Moves time on by some milliseconds; the ids of the tasks whose timers
elapsed, in that order. -/
def advanceClock (engine : Engine) (ms : Nat) : List Nat × Engine :=
  { engine with clock := engine.clock.advanceBy ms }.releaseDue

/-- Moves time on to a moment, if that lies ahead. -/
def advanceClockTo (engine : Engine) (moment : Nat) : List Nat × Engine :=
  { engine with clock := engine.clock.advanceTo moment }.releaseDue

/-- Forgets all tasks, timers, events and the time; ids go on counting. -/
def reset (engine : Engine) : Engine :=
  { trace := engine.trace.clear, nextId := engine.nextId }

end Engine

end EventLoop
