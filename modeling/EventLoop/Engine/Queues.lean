import EventLoop.Engine.Task

/-!
# The four task containers

Each container is the list of its tasks, the oldest first.  A task enters at
the end of the container it names and leaves from wherever it stands, so that
a move is a `take` followed by a `push` and never makes a copy.

An id is looked up in the containers in the fixed order of `Queue.all`;
`locate`, `find?` and `take` all mean its first occurrence in that order.
-/

namespace EventLoop

/-- The tasks that are waiting or ready, by container. -/
structure Queues where
  callStack : List Task := []
  pendingAsync : List Task := []
  callbackQueue : List Task := []
  deferredQueue : List Task := []
  deriving DecidableEq

namespace Queues

/-- Four empty containers. -/
def empty : Queues := {}

/-- The tasks of a container. -/
def get (queues : Queues) : Queue → List Task
  | .callStack => queues.callStack
  | .pendingAsync => queues.pendingAsync
  | .callbackQueue => queues.callbackQueue
  | .deferredQueue => queues.deferredQueue

/-- Changes one container. -/
def modify (queues : Queues) (queue : Queue) (change : List Task → List Task) : Queues :=
  match queue with
  | .callStack => { queues with callStack := change queues.callStack }
  | .pendingAsync => { queues with pendingAsync := change queues.pendingAsync }
  | .callbackQueue => { queues with callbackQueue := change queues.callbackQueue }
  | .deferredQueue => { queues with deferredQueue := change queues.deferredQueue }

/-- Puts a task at the end of the container it names. -/
def push (queues : Queues) (task : Task) : Queues :=
  queues.modify task.queue (· ++ [task])

/-- The oldest task of a container. -/
def head? (queues : Queues) (queue : Queue) : Option Task :=
  (queues.get queue).head?

/-- The youngest task of a container. -/
def last? (queues : Queues) (queue : Queue) : Option Task :=
  (queues.get queue).getLast?

/-- The container that holds an id. -/
def locate (queues : Queues) (id : Nat) : Option Queue :=
  Queue.all.find? fun queue => (queues.get queue).any (·.id = id)

/-- The task with an id. -/
def find? (queues : Queues) (id : Nat) : Option Task :=
  Queue.all.findSome? fun queue => (queues.get queue).find? (·.id = id)

/-- Takes the task with an id out of the container that holds it. -/
def take (queues : Queues) (id : Nat) : Option (Task × Queues) :=
  (queues.locate id).bind fun queue =>
    ((queues.get queue).find? (·.id = id)).map fun task =>
      (task, queues.modify queue (·.eraseP (·.id = id)))

/-- The number of tasks in all containers. -/
def size (queues : Queues) : Nat :=
  queues.callStack.length + queues.pendingAsync.length + queues.callbackQueue.length
    + queues.deferredQueue.length

/-- Whether all containers are empty. -/
def isEmpty (queues : Queues) : Bool :=
  queues.size = 0

@[simp] theorem get_modify_self (queues : Queues) (queue : Queue)
    (change : List Task → List Task) :
    (queues.modify queue change).get queue = change (queues.get queue) := by
  cases queue <;> rfl

theorem get_modify_of_ne (queues : Queues) {queue other : Queue}
    (change : List Task → List Task) (h : other ≠ queue) :
    (queues.modify queue change).get other = queues.get other := by
  cases queue <;> cases other <;> first | rfl | exact absurd rfl h

end Queues

end EventLoop
