import EventLoop.Config.Basic
import EventLoop.Engine.Basic
import EventLoop.Step.Extract

/-!
# Simulations

A simulation runs the steps of a script on an engine, tick by tick.  A tick

1. finishes the task that the tick before started;
2. submits the next steps of the script, if the call stack is empty, up to
   and including the next one that goes to the call stack;
3. moves virtual time on and lets timers elapse;
4. starts at most one task.

Because steps are submitted only when the call stack is empty, it never holds
more than one task, and the steps that go to it run in the order of the text.
-/

namespace EventLoop

/-- A task that a tick started. -/
structure ExecutedTask where
  id : Nat
  kind : TaskKind
  queue : Queue
  description : String
  sourceLine : Nat
  startedAtMs : Nat
  deriving DecidableEq

/-- What a tick did. -/
structure TickReport where
  tick : Nat
  nowMs : Nat
  finished : Option Nat
  released : List Nat
  started : Option ExecutedTask
  console : Option String
  deriving DecidableEq

/-- How far a simulation has come. -/
structure RunReport where
  ticks : Nat
  completed : Bool
  finalTimeMs : Nat
  executed : List ExecutedTask
  console : List String
  trace : List TraceEvent
  deriving DecidableEq

/-- A script that is being run. -/
structure Simulation where
  engine : Engine
  extraction : Extraction
  settings : TickerConfig
  /-- The task that was started last and is not finished. -/
  running : Option Nat
  /-- The steps that are still to be submitted. -/
  upcoming : List Step
  ticks : Nat
  executed : List ExecutedTask
  console : List String

namespace Simulation

/-- A simulation of an extraction, before its first tick. -/
def ofExtraction (extraction : Extraction) (config : Config) : Simulation :=
  { engine := .withTraceCapacity config.engine.traceCapacity
    extraction
    settings := config.ticker
    running := none
    upcoming := extraction.steps
    ticks := 0
    executed := []
    console := [] }

/-- A simulation of a script's text, before its first tick. -/
def load (source : String) (config : Config) : Simulation :=
  ofExtraction (extractSource source) config

/-- Whether all steps are submitted and nothing is queued or executing. -/
def isDone (simulation : Simulation) : Bool :=
  simulation.running.isNone && simulation.upcoming.isEmpty && simulation.engine.isIdle

/-- The virtual time that a tick takes. -/
def virtualStepMs (simulation : Simulation) : Nat :=
  simulation.settings.virtualStepMs

/-- Changes the speed, unless it is no positive number. -/
def setSpeed (simulation : Simulation) (speed : Float) : Simulation :=
  if isValidSpeed speed then
    { simulation with settings := { simulation.settings with speed } }
  else simulation

/-! ## A tick -/

/-- Submits steps up to and including the first one that goes to the call
stack; the steps that are left. -/
def submitUntilSync (engine : Engine) : List Step → List Step × Engine
  | [] => ([], engine)
  | step :: rest =>
    let (task, engine) := engine.submit step
    if task.queue = .callStack then (rest, engine) else submitUntilSync engine rest

/-- What a task prints when it is completed. -/
def consoleLine? (task : Task) : Option String :=
  if task.kind = .console then task.payload else none

/-- Completes the running task, or fails it if it stands for an error; what it
prints. -/
def finish (engine : Engine) (id : Nat) : Option String × Engine :=
  match (engine.task? id).filter (·.kind = .error) with
  | some task => (none, (engine.fail id (task.payload.getD "parse error")).2)
  | none =>
    let (task, engine) := engine.complete id
    ((match task with
      | .ok task => consoleLine? task
      | .error _ => none), engine)

/-- Finishes the task that is running, if there is one. -/
def finishRunning (simulation : Simulation) : Option String × Simulation :=
  match simulation.running with
  | none => (none, simulation)
  | some id =>
    let (line, engine) := finish simulation.engine id
    (line, { simulation with
      engine
      running := none
      console := simulation.console ++ line.toList })

/-- Submits steps if the call stack is empty. -/
def refill (simulation : Simulation) : Simulation :=
  if simulation.engine.queues.callStack.isEmpty then
    let (upcoming, engine) := submitUntilSync simulation.engine simulation.upcoming
    { simulation with engine, upcoming }
  else simulation

/-- Jumps to the next timer, if there is nothing to run and jumping is asked
for. -/
def jump (simulation : Simulation) : List Nat × Simulation :=
  match simulation.settings.fastForward, simulation.engine.next?,
      simulation.engine.timers.nextDue? with
  | true, none, some due =>
    let (released, engine) := simulation.engine.advanceClockTo due
    (released, { simulation with engine })
  | _, _, _ => ([], simulation)

/-- Moves time on by the length of a tick and perhaps to the next timer; the
tasks whose timers elapsed. -/
def moveTime (simulation : Simulation) : List Nat × Simulation :=
  let (released, engine) := simulation.engine.advanceClock simulation.virtualStepMs
  let (later, simulation) := jump { simulation with engine }
  (released ++ later, simulation)

/-- How the start of a task is reported. -/
def executedTask (task : Task) (startedAtMs : Nat) : ExecutedTask :=
  { id := task.id
    kind := task.kind
    queue := task.queue
    description := task.description
    sourceLine := task.sourceLine
    startedAtMs }

/-- Starts the task that is next. -/
def startNext (simulation : Simulation) : Option ExecutedTask × Simulation :=
  match simulation.engine.next? with
  | none => (none, simulation)
  | some task =>
    match simulation.engine.start task.id with
    | (.ok task, engine) =>
      let executed := executedTask task engine.now
      (some executed, { simulation with
        engine
        running := some task.id
        executed := simulation.executed ++ [executed] })
    | (.error _, engine) => (none, { simulation with engine })

/-- One tick. -/
def tick (simulation : Simulation) : TickReport × Simulation :=
  let finished := simulation.running
  let (console, simulation) :=
    finishRunning { simulation with ticks := simulation.ticks + 1 }
  let (released, simulation) := moveTime simulation.refill
  let (started, simulation) := startNext simulation
  ({ tick := simulation.ticks
     nowMs := simulation.engine.now
     finished
     released
     started
     console }, simulation)

/-! ## Runs -/

/-- Ticks a number of times, or until nothing is left to do. -/
def runFor : Nat → Simulation → Simulation
  | 0, simulation => simulation
  | ticks + 1, simulation =>
    if simulation.isDone then simulation else runFor ticks simulation.tick.2

/-- Ticks until nothing is left to do or the limit is reached. -/
def run (simulation : Simulation) : Simulation :=
  runFor (simulation.settings.maxTicks - simulation.ticks) simulation

/-- How far the simulation has come. -/
def report (simulation : Simulation) : RunReport :=
  { ticks := simulation.ticks
    completed := simulation.isDone
    finalTimeMs := simulation.engine.now
    executed := simulation.executed
    console := simulation.console
    trace := simulation.engine.trace.events }

/-- Starts the script over, on an engine whose ids go on counting. -/
def restart (simulation : Simulation) : Simulation :=
  { simulation with
    engine := simulation.engine.reset
    running := none
    upcoming := simulation.extraction.steps
    ticks := 0
    executed := []
    console := [] }

end Simulation

end EventLoop
