/-!
# The timer schedule

Timers are kept in the order in which they elapse: by due time, then by number
of registration, then by task.  The schedule is a set, so a timer that is
already in it is not entered twice.

`popDue` splits the schedule at a moment: what is due by then, in order, and
the rest.
-/

namespace EventLoop

/-- A timer of a task. -/
structure Timer where
  dueAt : Nat
  seq : Nat
  taskId : Nat
  deriving DecidableEq

/-- The order in which timers elapse. -/
def Timer.before (a b : Timer) : Bool :=
  a.dueAt < b.dueAt ||
    (a.dueAt = b.dueAt && (a.seq < b.seq || (a.seq = b.seq && a.taskId < b.taskId)))

/-- The timers that have not elapsed, the next one first. -/
structure Timers where
  entries : List Timer := []
  deriving DecidableEq

namespace Timers

/-- A schedule without timers. -/
def empty : Timers := {}

/-- Puts a timer at its place. -/
def insertTimer (timer : Timer) : List Timer → List Timer
  | [] => [timer]
  | first :: rest =>
    if timer.before first then timer :: first :: rest
    else if first.before timer then first :: insertTimer timer rest
    else first :: rest

/-- Enters a timer. -/
def schedule (timers : Timers) (timer : Timer) : Timers :=
  ⟨insertTimer timer timers.entries⟩

/-- Splits off the timers that are due at a moment, in the order in which they
elapse. -/
def popDue (timers : Timers) (now : Nat) : List Timer × Timers :=
  (timers.entries.takeWhile (·.dueAt ≤ now), ⟨timers.entries.dropWhile (·.dueAt ≤ now)⟩)

/-- The first timer of a task. -/
def timerOf? (timers : Timers) (taskId : Nat) : Option Timer :=
  timers.entries.find? (·.taskId = taskId)

/-- Removes the first timer of a task, if it has one. -/
def cancel (timers : Timers) (taskId : Nat) : Timers :=
  ⟨timers.entries.eraseP (·.taskId = taskId)⟩

/-- The moment at which the next timer is due. -/
def nextDue? (timers : Timers) : Option Nat :=
  timers.entries.head?.map (·.dueAt)

end Timers

end EventLoop
