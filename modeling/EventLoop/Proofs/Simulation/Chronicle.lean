import EventLoop.Simulation.Basic

/-!
# Chronicles of simulations

A simulation keeps the tasks that it started, but not when the others were
submitted, nor what its earlier ticks reported.  A `Chronicle` is a simulation
together with all of that since it was last started over: the submissions, each
with the task that the engine gave back and the virtual time of the call, and
the reports of the ticks.  Whatever can be asked of a simulation is a
`Command`; the chronicle of a list of commands contains the simulation that the
same commands lead to (`simulation_performAll`).
-/

namespace EventLoop

/-- A task as an engine gave it back when it was submitted, and the time of
that. -/
structure Submission where
  task : Task
  submittedAt : Nat
  deriving DecidableEq

namespace Submission

/-- Whether the task waits for a timer before it can run. -/
def isTimed (submission : Submission) : Bool :=
  submission.task.queue = .pendingAsync

/-- When the timer of the task is due. -/
def dueAt (submission : Submission) : Nat :=
  later submission.submittedAt submission.task.delayMs

end Submission

namespace Simulation

/-- What `submitUntilSync` submits. -/
def submissionsUntilSync (engine : Engine) : List Step → List Submission
  | [] => []
  | step :: rest =>
      let (task, next) := engine.submit step
      ⟨task, engine.now⟩ ::
        if task.queue = .callStack then [] else submissionsUntilSync next rest

/-- What `refill` submits. -/
def refillSubmissions (simulation : Simulation) : List Submission :=
  if simulation.engine.queues.callStack.isEmpty then
    submissionsUntilSync simulation.engine simulation.upcoming
  else []

/-- What a tick submits, after it has finished the running task. -/
def tickSubmissions (simulation : Simulation) : List Submission :=
  simulation.finishRunning.2.refillSubmissions

/-- A call on a simulation. -/
inductive Command where
  | tick
  | setSpeed (speed : Float)
  | run
  | restart

/-- Carries out a command. -/
def perform (simulation : Simulation) : Command → Simulation
  | .tick => simulation.tick.2
  | .setSpeed speed => simulation.setSpeed speed
  | .run => simulation.run
  | .restart => simulation.restart

/-- Carries out commands one after the other. -/
def performAll (simulation : Simulation) (commands : List Command) : Simulation :=
  commands.foldl perform simulation

end Simulation

/-- A simulation, and what it has done since it was started over. -/
structure Chronicle where
  simulation : Simulation
  submissions : List Submission := []
  reports : List TickReport := []

namespace Chronicle

/-- The chronicle of a simulation before its first tick. -/
def load (source : String) (config : Config) : Chronicle :=
  { simulation := .load source config }

/-- One tick. -/
def tick (chronicle : Chronicle) : Chronicle :=
  { simulation := chronicle.simulation.tick.2
    submissions := chronicle.submissions ++ chronicle.simulation.tickSubmissions
    reports := chronicle.reports ++ [chronicle.simulation.tick.1] }

/-- Ticks a number of times, or until nothing is left to do. -/
def runFor : Nat → Chronicle → Chronicle
  | 0, chronicle => chronicle
  | ticks + 1, chronicle =>
      if chronicle.simulation.isDone then chronicle else runFor ticks chronicle.tick

/-- Ticks until nothing is left to do or the limit is reached. -/
def run (chronicle : Chronicle) : Chronicle :=
  runFor (chronicle.simulation.settings.maxTicks - chronicle.simulation.ticks) chronicle

/-- Carries out a command. -/
def perform (chronicle : Chronicle) : Simulation.Command → Chronicle
  | .tick => chronicle.tick
  | .setSpeed speed => { chronicle with simulation := chronicle.simulation.setSpeed speed }
  | .run => chronicle.run
  | .restart => { simulation := chronicle.simulation.restart }

/-- Carries out commands one after the other. -/
def performAll (chronicle : Chronicle) (commands : List Simulation.Command) : Chronicle :=
  commands.foldl perform chronicle

theorem simulation_runFor (ticks : Nat) (chronicle : Chronicle) :
    (runFor ticks chronicle).simulation = Simulation.runFor ticks chronicle.simulation := by
  induction ticks generalizing chronicle with
  | zero => rfl
  | succ ticks ih =>
      rw [runFor, Simulation.runFor]
      split
      · rfl
      · exact ih chronicle.tick

/-- A chronicle observes a simulation and does not change its course. -/
theorem simulation_performAll (chronicle : Chronicle) (commands : List Simulation.Command) :
    (chronicle.performAll commands).simulation =
      chronicle.simulation.performAll commands := by
  induction commands generalizing chronicle with
  | nil => rfl
  | cons command rest ih =>
      have hstep : (chronicle.perform command).simulation =
          chronicle.simulation.perform command := by
        cases command with
        | tick => rfl
        | setSpeed speed => rfl
        | run => exact simulation_runFor _ chronicle
        | restart => rfl
      have hrest := ih (chronicle.perform command)
      rw [hstep] at hrest
      exact hrest

/-! ## Induction over commands -/

theorem runFor_induction {motive : Chronicle → Prop}
    (tick : ∀ chronicle, motive chronicle → motive chronicle.tick) (ticks : Nat) :
    ∀ chronicle, motive chronicle → motive (runFor ticks chronicle) := by
  induction ticks with
  | zero => exact fun _ h => h
  | succ ticks ih =>
      intro chronicle h
      rw [runFor]
      split
      · exact h
      · exact ih _ (tick chronicle h)

/-- What holds of a chronicle and is kept by ticks, changes of speed and
restarts holds after any commands. -/
theorem performAll_induction {motive : Chronicle → Prop} {chronicle : Chronicle}
    (start : motive chronicle)
    (tick : ∀ chronicle, motive chronicle → motive chronicle.tick)
    (setSpeed : ∀ (chronicle : Chronicle) (speed : Float), motive chronicle →
      motive { chronicle with simulation := chronicle.simulation.setSpeed speed })
    (restart : ∀ chronicle, motive chronicle →
      motive { simulation := chronicle.simulation.restart })
    (commands : List Simulation.Command) : motive (chronicle.performAll commands) := by
  induction commands generalizing chronicle with
  | nil => exact start
  | cons command rest ih =>
      refine ih ?_
      cases command with
      | tick => exact tick chronicle start
      | setSpeed speed => exact setSpeed chronicle speed start
      | run => exact runFor_induction tick _ chronicle start
      | restart => exact restart chronicle start

end Chronicle

end EventLoop
