import EventLoop.Simulation.Basic

/-!
# Tickers

A ticker drives a simulation and is controlled through a handle, which can
pause and resume it, stop it for good and change its speed.  The ticker looks
at the handle before every tick.  A paused ticker waits for the handle; once
the handle is gone there is nothing to wait for, and the run ends.

How long a ticker waits does not matter for what it does, so a run is told by
the actions on the handle alone: those before the run, and those after each
tick.  A handle that is left paused by them is given up.
-/

namespace EventLoop

/-- An action on the handle of a ticker. -/
inductive HandleAction where
  | pause
  | resume
  | stop
  | speed (value : Float)
  /-- Gives the handle up; no action after that has an effect. -/
  | drop

/-- What a handle asks of its ticker. -/
structure TickerControl where
  paused : Bool
  stopped : Bool
  speed : Float

/-- A ticker and its handle. -/
structure Ticker where
  simulation : Simulation
  control : TickerControl
  /-- Whether the handle is still there. -/
  hasHandle : Bool

namespace Ticker

/-- A ticker that starts at the simulation's speed. -/
def ofSimulation (simulation : Simulation) : Ticker :=
  { simulation
    control := { paused := false, stopped := false, speed := simulation.settings.speed }
    hasHandle := true }

/-- Applies an action, if the handle is still there. -/
def apply (ticker : Ticker) (action : HandleAction) : Ticker :=
  if ticker.hasHandle then
    match action with
    | .pause => { ticker with control := { ticker.control with paused := true } }
    | .resume => { ticker with control := { ticker.control with paused := false } }
    | .stop => { ticker with control := { ticker.control with stopped := true } }
    | .speed value =>
      if isValidSpeed value then
        { ticker with control := { ticker.control with speed := value } }
      else ticker
    | .drop => { ticker with hasHandle := false }
  else ticker

/-- Applies actions in order, and gives up a handle that is left paused. -/
def applyAll (ticker : Ticker) (actions : List HandleAction) : Ticker :=
  let ticker := actions.foldl apply ticker
  if ticker.control.paused then { ticker with hasHandle := false } else ticker

/-- Whether the ticker ends before its next tick. -/
def isOver (ticker : Ticker) : Bool :=
  ticker.simulation.isDone
    || ticker.simulation.settings.maxTicks ≤ ticker.simulation.ticks
    || ticker.control.stopped
    || (ticker.control.paused && !ticker.hasHandle)

/-- Lets the simulation have the speed that the handle asks for. -/
def takeSpeed (ticker : Ticker) : Ticker :=
  if ticker.control.speed != ticker.simulation.settings.speed then
    { ticker with simulation := ticker.simulation.setSpeed ticker.control.speed }
  else ticker

/-- Ticks at most a number of times, with actions after each tick; the reports
of the ticks. -/
def runFor (after : Nat → List HandleAction) : Nat → Ticker → List TickReport × Ticker
  | 0, ticker => ([], ticker)
  | ticks + 1, ticker =>
    if ticker.isOver then ([], ticker)
    else
      let ticker := ticker.takeSpeed
      let (report, simulation) := ticker.simulation.tick
      let (reports, ticker) :=
        runFor after ticks ({ ticker with simulation }.applyAll (after report.tick))
      (report :: reports, ticker)

/-- Ticks until the script is done, the limit is reached or the handle ends
the run. -/
def run (ticker : Ticker) (after : Nat → List HandleAction) : List TickReport × Ticker :=
  runFor after (ticker.simulation.settings.maxTicks - ticker.simulation.ticks) ticker

end Ticker

end EventLoop
