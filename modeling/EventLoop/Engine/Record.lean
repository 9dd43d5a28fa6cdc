import EventLoop.Engine.Basic

/-!
# Records of an engine

Tasks, timers, events and a whole engine as data records.
-/

namespace EventLoop

/-- The record of a task. -/
def Task.toJson (task : Task) : Json :=
  .object <|
    [("id", .nat task.id),
     ("kind", .text task.kind.name),
     ("description", .text task.description),
     ("delayMs", .nat task.delayMs),
     ("status", .text task.status.name),
     ("queue", .text task.queue.name),
     ("priority", .text task.priority.name),
     ("sourceLine", .nat task.sourceLine)]
    ++ Json.optional "payload" .text task.payload

/-- The record of a timer. -/
def Timer.toJson (timer : Timer) : Json :=
  .object [("dueAtMs", .nat timer.dueAt), ("seq", .nat timer.seq), ("taskId", .nat timer.taskId)]

/-- The record of an event. -/
def TraceEvent.toJson (event : TraceEvent) : Json :=
  .object <|
    [("seq", .nat event.seq), ("atMs", .nat event.atMs)]
    ++ Json.optional "taskId" .nat event.taskId
    ++ [("kind", .text event.kind.name), ("message", .text event.message)]

/-- The record of an engine. -/
def Engine.toJson (engine : Engine) : Json :=
  let tasks (list : List Task) : Json := .array (list.map Task.toJson)
  .object
    [("nowMs", .nat engine.now),
     ("callStack", tasks engine.queues.callStack),
     ("pendingAsync", tasks engine.queues.pendingAsync),
     ("callbackQueue", tasks engine.queues.callbackQueue),
     ("deferredQueue", tasks engine.queues.deferredQueue),
     ("inFlight", tasks engine.inFlight),
     ("finished", tasks engine.finished),
     ("timers", .array (engine.timers.entries.map Timer.toJson)),
     ("trace", .array (engine.trace.events.map TraceEvent.toJson))]

end EventLoop
