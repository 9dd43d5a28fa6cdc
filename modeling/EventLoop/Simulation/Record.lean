import EventLoop.Engine.Record
import EventLoop.Simulation.Basic
import EventLoop.Step.Record

/-!
# Records of a simulation

Started tasks, ticks and runs as data records, and those of an extraction.
-/

namespace EventLoop

/-- The record of a started task. -/
def ExecutedTask.toJson (task : ExecutedTask) : Json :=
  .object
    [("id", .nat task.id), ("kind", .text task.kind.name), ("queue", .text task.queue.name),
     ("description", .text task.description), ("sourceLine", .nat task.sourceLine),
     ("startedAtMs", .nat task.startedAtMs)]

/-- The record of a tick. -/
def TickReport.toJson (report : TickReport) : Json :=
  .object <|
    [("tick", .nat report.tick), ("nowMs", .nat report.nowMs)]
    ++ Json.optional "finished" .nat report.finished
    ++ (if report.released.isEmpty then []
        else [("released", .array (report.released.map .nat))])
    ++ Json.optional "started" ExecutedTask.toJson report.started
    ++ Json.optional "console" .text report.console

/-- The record of a run. -/
def RunReport.toJson (report : RunReport) : Json :=
  .object
    [("ticks", .nat report.ticks), ("completed", .bool report.completed),
     ("finalTimeMs", .nat report.finalTimeMs),
     ("executed", .array (report.executed.map ExecutedTask.toJson)),
     ("console", .array (report.console.map .text)),
     ("trace", .array (report.trace.map TraceEvent.toJson))]

/-- The record of a list of steps. -/
def stepsToJson (steps : List Step) : Json :=
  .array (steps.map Step.toJson)

/-- The record of a table. -/
def Table.toJson {α : Type} (write : α → Json) (table : Table α) : Json :=
  .object (table.entries.map fun entry => (entry.1, write entry.2))

/-- The record of an extraction. -/
def Extraction.toJson (extraction : Extraction) : Json :=
  .object
    [("steps", stepsToJson extraction.steps),
     ("functions", extraction.functions.toJson FunctionInfo.toJson),
     ("variables", extraction.bindings.toJson Value.toJson)]

end EventLoop
