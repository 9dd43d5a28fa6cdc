import EventLoop.Proofs.Engine.Containers

/-!
# The first occurrence of an id

An id can stand in several containers, and in each of them more than once.  All searches mean
its first occurrence (`FirstAt`): the first task with the id in the first container that has
one, in the order of `Queue.all`.  Taking the id removes this occurrence and nothing else
(`Lacks`).  Pushing the task again, for whichever container, puts it behind all others there
(`Gains`), so that a move keeps the number of tasks (`take_removes_found`).

Nothing is assumed of the containers.  Ids may be repeated, and a task may name a container in
which it does not stand.
-/

namespace EventLoop

namespace Queues

/-- The first task with an id stands in a container behind tasks with other ids, and no container
that is searched before has the id. -/
structure FirstAt (queues : Queues) (id : Nat) (queue : Queue) (before : List Task) (task : Task)
    (after : List Task) : Prop where
  get_eq : queues.get queue = before ++ task :: after
  id_eq : task.id = id
  ne_of_mem_before : ∀ other ∈ before, other.id ≠ id
  ne_of_mem_earlier : ∃ earlier behind, Queue.all = earlier ++ queue :: behind ∧
    ∀ other ∈ earlier, ∀ task ∈ queues.get other, task.id ≠ id

/-- A container has one task less, and its other tasks in the order they had. -/
structure Lacks (queues rest : Queues) (queue : Queue) (before after : List Task) : Prop where
  get_eq : rest.get queue = before ++ after
  get_other : ∀ other, other ≠ queue → rest.get other = queues.get other
  size_eq : rest.size + 1 = queues.size

/-- The container that a task names has the task behind all others. -/
structure Gains (queues more : Queues) (task : Task) : Prop where
  get_eq : more.get task.queue = queues.get task.queue ++ [task]
  get_other : ∀ other, other ≠ task.queue → more.get other = queues.get other
  size_eq : more.size = queues.size + 1

variable {queues : Queues} {id : Nat} {queue : Queue} {before after : List Task} {task : Task}

/-- A change of one container changes the number of tasks as it changes that of the container. -/
theorem size_modify (queues : Queues) (queue : Queue) (change : List Task → List Task) :
    (queues.modify queue change).size + (queues.get queue).length =
      queues.size + (change (queues.get queue)).length := by
  cases queue <;> simp only [size, modify, get] <;> omega

theorem gains_push (queues : Queues) (task : Task) : queues.Gains (queues.push task) task where
  get_eq := by rw [get_push, if_pos rfl]
  get_other := fun other hother => by rw [get_push, if_neg hother]
  size_eq := by
    have hsize := queues.size_modify task.queue (· ++ [task])
    rw [List.length_append, List.length_singleton] at hsize
    rw [push]
    omega

namespace Found

/-- What is found is the first occurrence. -/
theorem firstAt (h : queues.Found id queue before task after) :
    queues.FirstAt id queue before task after where
  get_eq := h.get_eq
  id_eq := h.id_eq
  ne_of_mem_before := h.ne_of_mem_before
  ne_of_mem_earlier := by
    obtain ⟨-, earlier, behind, hall, hearlier⟩ := List.find?_eq_some_iff_append.1 h.locate_eq
    refine ⟨earlier, behind, hall, fun other hother task htask heq => ?_⟩
    have hnone : ¬ (queues.get other).any (·.id = id) = true := by
      simpa using hearlier other hother
    exact hnone (List.any_eq_true.2 ⟨task, htask, by simpa using heq⟩)

/-- What is taken is the task that is found, and it alone. -/
theorem exists_take (h : queues.Found id queue before task after) :
    ∃ rest, queues.take id = some (task, rest) ∧ queues.Lacks rest queue before after := by
  refine ⟨_, h.take_eq, get_modify_self _ _ _, fun other hother => ?_, ?_⟩
  · exact get_modify_of_ne queues _ hother
  · have hsize := queues.size_modify queue fun _ => before ++ after
    rw [h.get_eq, List.length_append, List.length_append, List.length_cons] at hsize
    omega

end Found

/-- **Taking removes exactly what finding shows.**  In any containers and for any id, `locate`,
`find?` and `take` all give nothing, because no task has the id, or all of them mean its first
occurrence: `take` gives the task that `find?` gives, out of the container that `locate` names,
and removes this one task.  Wherever the task is pushed then, it stands behind all others, and
there are as many tasks as there were. -/
theorem take_removes_found (queues : Queues) (id : Nat) :
    (queues.locate id = none ∧ queues.find? id = none ∧ queues.take id = none ∧
        ∀ queue, ∀ task ∈ queues.get queue, task.id ≠ id) ∨
      ∃ queue before task after rest,
        queues.locate id = some queue ∧ queues.find? id = some task ∧
          queues.take id = some (task, rest) ∧ queues.FirstAt id queue before task after ∧
          queues.Lacks rest queue before after ∧
          ∀ target, let moved := { task with queue := target }
            rest.Gains (rest.push moved) moved ∧ (rest.push moved).size = queues.size := by
  rcases queues.absent_or_found id with habsent | ⟨queue, before, task, after, hfound⟩
  · exact .inl ⟨habsent.locate_eq, habsent.find_eq, habsent.take_eq, habsent.ne_of_mem⟩
  · obtain ⟨rest, htake, hlacks⟩ := hfound.exists_take
    refine .inr ⟨queue, before, task, after, rest, hfound.locate_eq, hfound.find_eq, htake,
      hfound.firstAt, hlacks, fun target => ?_⟩
    have hgains := rest.gains_push { task with queue := target }
    exact ⟨hgains, hgains.size_eq.trans hlacks.size_eq⟩

end Queues

end EventLoop
