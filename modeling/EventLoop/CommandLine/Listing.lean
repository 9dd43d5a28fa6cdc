import EventLoop.Simulation.Ticker
import EventLoop.Text.Pad

/-!
# Listings

Steps, ticks and runs as lines of text, for a reader rather than a program.
-/

namespace EventLoop.CommandLine

/-- Lines, each with its line end. -/
def linesText (lines : List String) : String :=
  String.join (lines.map (· ++ "\n"))

/-- A step as a line. -/
def stepLine (step : Step) : String :=
  Text.padStart 4 (toString step.sourceLine) ++ " | " ++ Text.padEnd 13 step.targetQueue.name
    ++ " | " ++ Text.padEnd 19 (Text.capitalize step.action.name) ++ " | " ++ step.description
    ++ (if step.delayMs = 0 then "" else " [" ++ toString step.delayMs ++ "ms]")

/-- The lines of a list of steps. -/
def stepLines (steps : List Step) : List String :=
  if steps.isEmpty then ["No steps"] else steps.map stepLine

/-- The id of a task. -/
def taskText (id : Nat) : String := "#" ++ toString id

/-- An event of a trace as a line. -/
def eventLine (event : TraceEvent) : String :=
  Text.padStart 6 (toString event.atMs) ++ "ms "
    ++ Text.padEnd 5 ((event.taskId.map taskText).getD "-") ++ " "
    ++ Text.padEnd 12 (Text.capitalize event.kind.name) ++ " " ++ event.message

/-- The lines of a trace. -/
def traceLines (events : List TraceEvent) : List String :=
  "Trace:" :: events.map (fun event => "  " ++ eventLine event) ++ [""]

/-- What a tick did, as lines. -/
def tickLines (report : TickReport) : List String :=
  (report.started.map fun task =>
      "[tick " ++ toString report.tick ++ " @ " ++ toString report.nowMs ++ "ms] "
        ++ taskText task.id ++ " " ++ task.description ++ " (" ++ task.queue.name ++ ")").toList
    ++ (report.console.map ("  > " ++ ·)).toList

/-- How a run ended, as lines: what was printed, and the figures. -/
def reportLines (report : RunReport) : List String :=
  "Console:"
    :: (if report.console.isEmpty then ["  (no output)"] else report.console.map ("  " ++ ·))
    ++ ["",
      toString report.executed.length ++ " task(s) executed in " ++ toString report.ticks
        ++ " tick(s), virtual time " ++ toString report.finalTimeMs ++ "ms"]
    ++ (if report.completed then []
        else ["Stopped before completion (tick limit or interrupt)"])

end EventLoop.CommandLine
