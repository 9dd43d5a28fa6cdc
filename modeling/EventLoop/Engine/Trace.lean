/-!
# The trace

The trace is the end of the history of what an engine did.  Events are
numbered from zero in the order in which they are recorded; once the log holds
as many as its capacity, each new event displaces the oldest one.
-/

namespace EventLoop

/-- What an event is about. -/
inductive TraceKind where
  | admitted
  | timerElapsed
  | started
  | completed
  | result
  | error
  | warning
  deriving DecidableEq

namespace TraceKind

/-- All kinds of events. -/
def all : List TraceKind :=
  [.admitted, .timerElapsed, .started, .completed, .result, .error, .warning]

/-- The name of a kind in records. -/
def name : TraceKind → String
  | .admitted => "admitted"
  | .timerElapsed => "timerElapsed"
  | .started => "started"
  | .completed => "completed"
  | .result => "result"
  | .error => "error"
  | .warning => "warning"

end TraceKind

/-- An event of an engine's history. -/
structure TraceEvent where
  /-- The position in the whole history. -/
  seq : Nat
  /-- The virtual time at which the event was recorded. -/
  atMs : Nat
  taskId : Option Nat
  kind : TraceKind
  message : String
  deriving DecidableEq

/-- The youngest events of a history, the oldest first. -/
structure TraceLog where
  capacity : Nat
  nextSeq : Nat := 0
  events : List TraceEvent := []
  deriving DecidableEq

namespace TraceLog

/-- The number of events that a log holds unless told otherwise. -/
def defaultCapacity : Nat := 100

/-- An empty log, with room for one event at least. -/
def withCapacity (capacity : Nat) : TraceLog :=
  { capacity := max capacity 1 }

/-- The event that is recorded next. -/
def nextEvent (log : TraceLog) (atMs : Nat) (taskId : Option Nat) (kind : TraceKind)
    (message : String) : TraceEvent :=
  { seq := log.nextSeq, atMs, taskId, kind, message }

/-- Records an event, at the cost of the oldest ones where there is no room. -/
def record (log : TraceLog) (atMs : Nat) (taskId : Option Nat) (kind : TraceKind)
    (message : String) : TraceLog :=
  { log with
    nextSeq := log.nextSeq + 1
    events := log.events.drop (log.events.length + 1 - log.capacity)
      ++ [log.nextEvent atMs taskId kind message] }

/-- The number of events displaced so far. -/
def evicted (log : TraceLog) : Nat :=
  log.nextSeq - log.events.length

/-- Drops all events and starts the numbering again. -/
def clear (log : TraceLog) : TraceLog :=
  { log with nextSeq := 0, events := [] }

end TraceLog

end EventLoop
