import EventLoop.Proofs.Engine.Operation
import EventLoop.Proofs.Engine.Passage
import Mathlib.Data.List.Nodup

/-!
# The places of an engine partition its tasks

In every state that a run of operations reaches, each id that was handed out
since the last reset belongs to exactly one task at exactly one place, and the
place tells the status of the task.

The invariant is `Placed`.  A place says by `Place.Holds` what a task has to be
like there, and as the requirements of any two places exclude each other, a
task is at one place only.  A passage keeps the ids, so all that is left to
show for an operation is that the task fits the place it enters.
-/

namespace EventLoop

/-- The status of the tasks of a container. -/
def Queue.status : Queue → TaskStatus
  | .pendingAsync => .waiting
  | .callStack | .callbackQueue | .deferredQueue => .pending

/-- What a task is like at a place. -/
def Place.Holds (place : Place) (task : Task) : Prop :=
  (match place with
   | .queued queue => task.queue = queue ∧ task.status = queue.status
   | .inFlight => task.status = .executing
   | .finished => task.status = .completed ∨ task.status = .error)
    ∧ (task.priority = .high → task.queue = .deferredQueue)

/-- The place that the status of a task tells. -/
def Task.place (task : Task) : Place :=
  match task.status with
  | .waiting | .pending => .queued task.queue
  | .executing => .inFlight
  | .completed | .error => .finished

theorem Place.Holds.eq_place {place : Place} {task : Task} (h : place.Holds task) :
    place = task.place := by
  cases place with
  | queued queue =>
      obtain ⟨⟨hqueue, hstatus⟩, -⟩ := h
      cases queue <;> simp_all [Task.place, Queue.status]
  | inFlight => simp_all [Place.Holds, Task.place]
  | finished =>
      obtain ⟨hstatus | hstatus, -⟩ := h <;> simp [Task.place, hstatus]

/-- Of the queued tasks those and only those of the pending container wait. -/
theorem Place.Holds.queue_eq_iff {task : Task} (h : task.place.Holds task)
    (hqueued : task.status = .waiting ∨ task.status = .pending) :
    task.queue = .pendingAsync ↔ task.status = .waiting := by
  have hplace : task.place = .queued task.queue := by
    rcases hqueued with hstatus | hstatus <;> simp [Task.place, hstatus]
  rw [hplace] at h
  rw [h.1.2]
  cases task.queue <;> simp [Queue.status]

theorem Place.holds_ofStep (id : Nat) (step : Step) :
    (Place.queued step.targetQueue).Holds (Task.ofStep id step) := by
  cases hqueue : step.targetQueue <;> simp [Holds, Task.ofStep, hqueue, Queue.status]

namespace Engine

/-- The tasks of an engine have the given ids, which are in order and below
the next id, and each is at a place that it fits. -/
structure Placed (engine : Engine) (ids : List Nat) : Prop where
  ids_perm : (engine.tasks.map Task.id).Perm ids
  increasing : ids.Pairwise (· < ·)
  lt_nextId : ∀ id ∈ ids, id < engine.nextId
  holds : ∀ place, ∀ task ∈ engine.tasksAt place, place.Holds task
  inFlight_sorted : engine.inFlight.Pairwise (·.id < ·.id)

namespace Placed

variable {engine next : Engine} {ids : List Nat}

/-! ## What the invariant says about one task -/

theorem nodup (h : engine.Placed ids) : (engine.tasks.map Task.id).Nodup :=
  h.ids_perm.nodup_iff.2 (h.increasing.imp Nat.ne_of_lt)

/-- Two tasks with one id are the same task at the same place. -/
theorem eq_of_id_eq (h : engine.Placed ids) (first second : Place) {task other : Task}
    (htask : task ∈ engine.tasksAt first) (hother : other ∈ engine.tasksAt second)
    (hid : task.id = other.id) : task = other ∧ first = second := by
  have heq : task = other := List.inj_on_of_nodup_map h.nodup (mem_tasks.2 ⟨first, htask⟩)
    (mem_tasks.2 ⟨second, hother⟩) hid
  subst heq
  exact ⟨rfl, (h.holds first task htask).eq_place.trans (h.holds second task hother).eq_place.symm⟩

/-- A queued task is found by its id. -/
theorem found (h : engine.Placed ids) {queue : Queue} {task : Task}
    (htask : task ∈ engine.queues.get queue) :
    ∃ before after, engine.queues.Found task.id queue before task after := by
  rcases engine.queues.absent_or_found task.id with habsent | ⟨other, before, found, after, hfound⟩
  · exact absurd rfl (habsent.ne_of_mem queue task htask)
  · obtain ⟨rfl, hplace⟩ := h.eq_of_id_eq (.queued other) (.queued queue)
      hfound.mem htask hfound.id_eq
    rw [Place.queued.injEq] at hplace
    exact ⟨before, after, hplace ▸ hfound⟩

/-- An executing task is found by its id. -/
theorem find?_inFlight (h : engine.Placed ids) {task : Task} (htask : task ∈ engine.inFlight) :
    engine.inFlight.find? (·.id = task.id) = some task := by
  cases hfind : engine.inFlight.find? (·.id = task.id) with
  | none => simpa using List.find?_eq_none.1 hfind task htask
  | some found =>
      have hid : found.id = task.id := by simpa using List.find?_some hfind
      obtain ⟨rfl, -⟩ := h.eq_of_id_eq .inFlight .inFlight
        (List.mem_of_find?_eq_some hfind) htask hid
      rfl

/-! ## The invariant is kept -/

/-- The invariant is about places and the next id only. -/
theorem congr (h : engine.Placed ids) (hplaces : next.tasksAt = engine.tasksAt)
    (hnext : next.nextId = engine.nextId) : next.Placed ids := by
  have hflight : next.inFlight = engine.inFlight := congrFun hplaces .inFlight
  refine ⟨?_, h.increasing, hnext ▸ h.lt_nextId, hplaces ▸ h.holds, hflight ▸ h.inFlight_sorted⟩
  rw [tasks, hplaces]
  exact h.ids_perm

theorem of_passage (h : engine.Placed ids) {source target : Place} {task moved : Task}
    (passage : Passage engine next source target task moved) (hholds : target.Holds moved)
    (hsorted : next.inFlight.Pairwise (·.id < ·.id)) : next.Placed ids := by
  refine ⟨passage.perm_ids.trans h.ids_perm, h.increasing, passage.nextId_eq ▸ h.lt_nextId, ?_,
    hsorted⟩
  intro place other hother
  rcases passage.mem_or_eq hother with hmem | ⟨rfl, rfl⟩
  · exact h.holds place other hmem
  · exact hholds

protected theorem refuse (h : engine.Placed ids) (α : Type) (id : Nat) (requested : TaskStatus) :
    (engine.refuse (α := α) id requested).2.Placed ids :=
  h.congr rfl rfl

protected theorem submit (h : engine.Placed ids) (step : Step) :
    (engine.submit step).2.Placed (ids ++ [engine.nextId]) := by
  have hplaces := tasksAt_submit engine step
  refine ⟨?_, ?_, ?_, ?_, ?_⟩
  · -- an id is gained where the new task goes, and none is lost
    refine List.perm_iff_count.2 fun id => ?_
    have hplace : ∀ place,
        (((engine.submit step).2.tasksAt place).map Task.id).count id
            + (if place = .finished then 0 else 0) =
          ((engine.tasksAt place).map Task.id).count id
            + (if place = .queued step.targetQueue then [engine.nextId].count id else 0) := by
      intro place
      rw [hplaces place]
      split <;> simp [Task.ofStep]
    have hcount := count_tasks_add hplace
    rw [List.count_append, ← h.ids_perm.count_eq id]
    exact hcount
  · -- the new id is above all others
    refine List.pairwise_append.2 ⟨h.increasing, List.pairwise_singleton _ _, ?_⟩
    intro id hid new hnew
    rw [List.mem_singleton.1 hnew]
    exact h.lt_nextId id hid
  · intro id hid
    rw [submit_nextId]
    rcases List.mem_append.1 hid with hid | hid
    · exact Nat.lt_succ_of_lt (h.lt_nextId id hid)
    · rw [List.mem_singleton.1 hid]
      exact Nat.lt_succ_self _
  · intro place task htask
    rcases (mem_tasksAt_submit engine step).1 htask with hold | ⟨rfl, rfl⟩
    · exact h.holds place task hold
    · exact Place.holds_ofStep _ _
  · rw [submit_inFlight]
    exact h.inFlight_sorted

protected theorem start (h : engine.Placed ids) (id : Nat) : (engine.start id).2.Placed ids := by
  rcases engine.queues.absent_or_found id with habsent | ⟨queue, before, task, after, hfound⟩
  · rw [start_absent habsent]
    exact h.refuse _ _ _
  · by_cases hstatus : task.status = .pending
    · -- an executing task with the same id would be the same task at a second place
      have hfresh : ∀ other ∈ engine.inFlight, other.id ≠ task.id := by
        intro other hother heq
        obtain ⟨-, hplace⟩ := h.eq_of_id_eq .inFlight (.queued queue) hother hfound.mem heq
        contradiction
      have hholds := (h.holds (.queued queue) task hfound.mem).2
      refine h.of_passage (start_passage hfound hfresh hstatus) ⟨rfl, hholds⟩ ?_
      rw [start_found hfound, if_pos hstatus]
      exact insertInFlight_sorted hfresh h.inFlight_sorted
    · rw [start_found hfound, if_neg hstatus]
      exact h.refuse _ _ _

protected theorem complete (h : engine.Placed ids) (id : Nat) :
    (engine.complete id).2.Placed ids := by
  cases hfind : engine.inFlight.find? (·.id = id) with
  | none =>
      rw [complete_missing hfind]
      exact h.refuse _ _ _
  | some task =>
      have hholds := (h.holds .inFlight task (List.mem_of_find?_eq_some hfind)).2
      refine h.of_passage (complete_passage hfind) ⟨.inl rfl, hholds⟩ ?_
      rw [complete_executing hfind]
      exact h.inFlight_sorted.sublist List.eraseP_sublist

protected theorem fail (h : engine.Placed ids) (id : Nat) (reason : String) :
    (engine.fail id reason).2.Placed ids := by
  cases hfind : engine.inFlight.find? (·.id = id) with
  | some task =>
      have hholds := (h.holds .inFlight task (List.mem_of_find?_eq_some hfind)).2
      refine h.of_passage (fail_executing_passage hfind reason) ⟨.inr rfl, hholds⟩ ?_
      rw [fail_executing hfind]
      exact h.inFlight_sorted.sublist List.eraseP_sublist
  | none =>
      rcases engine.queues.absent_or_found id with habsent | ⟨queue, before, task, after, hfound⟩
      · rw [fail_absent hfind habsent]
        exact h.refuse _ _ _
      · have hholds := (h.holds (.queued queue) task hfound.mem).2
        refine h.of_passage (fail_queued_passage hfind hfound reason) ⟨.inr rfl, hholds⟩ ?_
        rw [fail_found hfind hfound]
        exact h.inFlight_sorted

protected theorem advanceTimer (h : engine.Placed ids) (id : Nat) :
    (engine.advanceTimer id).2.Placed ids := by
  obtain ⟨before, task, after, hfound⟩ | helsewhere :=
    engine.queues.found_or_elsewhere id .pendingAsync
  · have hholds := h.holds (.queued .pendingAsync) task hfound.mem
    -- the task changes its queue, so it must not be one of high priority
    have hpriority : task.priority ≠ .high := by
      intro hhigh
      have hdeferred := hholds.2 hhigh
      rw [hholds.1.1] at hdeferred
      contradiction
    refine h.of_passage (advanceTimer_passage hfound)
      ⟨⟨rfl, rfl⟩, fun hhigh => absurd hhigh hpriority⟩ ?_
    rw [advanceTimer_found hfound]
    exact h.inFlight_sorted
  · rw [advanceTimer_elsewhere helsewhere]
    exact h.refuse _ _ _

protected theorem release (h : engine.Placed ids) (timers : List Timer) :
    (engine.release timers).2.Placed ids := by
  induction timers generalizing engine with
  | nil => exact h
  | cons timer rest ih => exact ih (h.advanceTimer timer.taskId)

protected theorem releaseDue (h : engine.Placed ids) : engine.releaseDue.2.Placed ids := by
  have hpopped : ({ engine with
    timers := (engine.timers.popDue engine.now).2 } : Engine).Placed ids := h.congr rfl rfl
  exact hpopped.release _

theorem with_clock (h : engine.Placed ids) (clock : Clock) :
    ({ engine with clock } : Engine).Placed ids :=
  h.congr rfl rfl

protected theorem advanceClock (h : engine.Placed ids) (ms : Nat) :
    (engine.advanceClock ms).2.Placed ids :=
  (h.with_clock (engine.clock.advanceBy ms)).releaseDue

protected theorem advanceClockTo (h : engine.Placed ids) (moment : Nat) :
    (engine.advanceClockTo moment).2.Placed ids :=
  (h.with_clock (engine.clock.advanceTo moment)).releaseDue

theorem reset (engine : Engine) : engine.reset.Placed [] := by
  refine ⟨.nil, .nil, by simp, fun place task htask => ?_, .nil⟩
  rw [tasksAt_reset] at htask
  contradiction

theorem withTraceCapacity (capacity : Nat) : (Engine.withTraceCapacity capacity).Placed [] :=
  (reset (Engine.withTraceCapacity capacity)).congr rfl rfl

/-- Every operation keeps the invariant, for the ids that its answer leaves. -/
theorem perform (h : engine.Placed ids) (operation : Operation) :
    (engine.perform operation).2.Placed ((engine.perform operation).1.note ids) := by
  cases operation with
  | submit step => exact h.submit step
  | start id => exact h.start id
  | complete id => exact h.complete id
  | fail id reason => exact h.fail id reason
  | advanceTimer id => exact h.advanceTimer id
  | advanceClock ms => exact h.advanceClock ms
  | advanceClockTo moment => exact h.advanceClockTo moment
  | reset => exact reset engine

end Placed

/-! ## Ids only grow -/

section NextId

variable (engine : Engine)

theorem nextId_start (id : Nat) : (engine.start id).2.nextId = engine.nextId := by
  unfold start
  split
  · rfl
  · split <;> rfl

theorem nextId_complete (id : Nat) : (engine.complete id).2.nextId = engine.nextId := by
  unfold complete recordResult
  split
  · rfl
  · dsimp only
    split <;> rfl

theorem nextId_fail (id : Nat) (reason : String) :
    (engine.fail id reason).2.nextId = engine.nextId := by
  unfold fail
  split
  · rfl
  · split <;> rfl

theorem nextId_advanceTimer (id : Nat) : (engine.advanceTimer id).2.nextId = engine.nextId := by
  unfold advanceTimer
  split <;> rfl

theorem nextId_release (engine : Engine) (timers : List Timer) :
    (engine.release timers).2.nextId = engine.nextId := by
  induction timers generalizing engine with
  | nil => rfl
  | cons timer rest ih => exact (ih _).trans (nextId_advanceTimer engine timer.taskId)

theorem nextId_advanceClock (ms : Nat) : (engine.advanceClock ms).2.nextId = engine.nextId :=
  nextId_release _ _

theorem nextId_advanceClockTo (moment : Nat) :
    (engine.advanceClockTo moment).2.nextId = engine.nextId :=
  nextId_release _ _

/-- An operation hands out the next id, which it then passes, or no id. -/
theorem issued?_perform (operation : Operation) :
    (engine.perform operation).1.issued? = some engine.nextId ∧
        (engine.perform operation).2.nextId = engine.nextId + 1 ∨
      (engine.perform operation).1.issued? = none ∧
        (engine.perform operation).2.nextId = engine.nextId := by
  cases operation with
  | submit step => exact .inl ⟨rfl, submit_nextId engine step⟩
  | start id => exact .inr ⟨rfl, nextId_start engine id⟩
  | complete id => exact .inr ⟨rfl, nextId_complete engine id⟩
  | fail id reason => exact .inr ⟨rfl, nextId_fail engine id reason⟩
  | advanceTimer id => exact .inr ⟨rfl, nextId_advanceTimer engine id⟩
  | advanceClock ms => exact .inr ⟨rfl, nextId_advanceClock engine ms⟩
  | advanceClockTo moment => exact .inr ⟨rfl, nextId_advanceClockTo engine moment⟩
  | reset => exact .inr ⟨rfl, rfl⟩

end NextId

/-- All ids that a run hands out are in order and below the next one. -/
theorem issued_increasing (engine : Engine) (operations : List Operation) :
    let (answers, last) := engine.performAll operations
    (issued answers).Pairwise (· < ·) ∧ ∀ id ∈ issued answers, id < last.nextId := by
  refine performAll_induction
    (motive := fun answers last =>
      (issued answers).Pairwise (· < ·) ∧ ∀ id ∈ issued answers, id < last.nextId)
    (by simp) ?_ operations
  rintro answers last operation ⟨hincreasing, hlt⟩
  rw [issued_concat]
  rcases issued?_perform last operation with ⟨hissued, hnext⟩ | ⟨hissued, hnext⟩
  · rw [hissued, hnext, Option.toList_some]
    refine ⟨List.pairwise_append.2 ⟨hincreasing, List.pairwise_singleton _ _, ?_⟩, ?_⟩
    · intro id hid new hnew
      rw [List.mem_singleton.1 hnew]
      exact hlt id hid
    · intro id hid
      rcases List.mem_append.1 hid with hid | hid
      · exact Nat.lt_succ_of_lt (hlt id hid)
      · rw [List.mem_singleton.1 hid]
        exact Nat.lt_succ_self _
  · rw [hissued, hnext, Option.toList_none, List.append_nil]
    exact ⟨hincreasing, hlt⟩

/-! ## Runs -/

/-- In a reachable state the tasks are those submitted since the last reset. -/
theorem placed_of_run (capacity : Nat) (operations : List Operation) :
    let (answers, engine) := (withTraceCapacity capacity).performAll operations
    engine.Placed (liveIds answers) := by
  refine performAll_induction (motive := fun answers engine => engine.Placed (liveIds answers))
    (Placed.withTraceCapacity capacity) ?_ operations
  intro answers engine operation h
  rw [liveIds_concat]
  exact h.perform operation

/-- The tasks of an engine are those of the given ids, and every place holds
what it should. -/
structure Partitioned (engine : Engine) (ids : List Nat) : Prop where
  /-- The six places together have each of the ids once, and no others. -/
  ids_perm : (engine.tasks.map Task.id).Perm ids
  ids_nodup : ids.Nodup
  /-- A queued task names its container. -/
  queue_eq : ∀ queue, ∀ task ∈ engine.queues.get queue, task.queue = queue
  waiting_iff : ∀ task ∈ engine.tasks,
    task.status = .waiting ↔ task ∈ engine.queues.pendingAsync
  pending_iff : ∀ task ∈ engine.tasks, task.status = .pending ↔
    task ∈ engine.queues.callStack ∨ task ∈ engine.queues.callbackQueue ∨
      task ∈ engine.queues.deferredQueue
  executing_iff : ∀ task ∈ engine.tasks, task.status = .executing ↔ task ∈ engine.inFlight
  /-- An executing task is the one stored under its id. -/
  find?_inFlight : ∀ task ∈ engine.inFlight, engine.inFlight.find? (·.id = task.id) = some task
  ended_iff : ∀ task ∈ engine.tasks,
    task.status = .completed ∨ task.status = .error ↔ task ∈ engine.finished
  deferred_of_high : ∀ task ∈ engine.tasks, task.priority = .high → task.queue = .deferredQueue

/-- A task of an engine is at the place that its status tells, and nowhere
else. -/
theorem Placed.mem_tasksAt_iff {engine : Engine} {ids : List Nat} (h : engine.Placed ids)
    {task : Task} (htask : task ∈ engine.tasks) (place : Place) :
    task ∈ engine.tasksAt place ↔ task.place = place := by
  obtain ⟨actual, hactual⟩ := mem_tasks.1 htask
  have hplace := (h.holds actual task hactual).eq_place
  constructor
  · intro hmem
    exact (h.holds place task hmem).eq_place.symm
  · rintro rfl
    exact hplace ▸ hactual

theorem Placed.partitioned {engine : Engine} {ids : List Nat} (h : engine.Placed ids) :
    engine.Partitioned ids := by
  have hmem : ∀ task ∈ engine.tasks, ∀ place, task ∈ engine.tasksAt place ↔ task.place = place :=
    fun task htask => h.mem_tasksAt_iff htask
  have hholds : ∀ task ∈ engine.tasks, task.place.Holds task := fun task htask =>
    h.holds _ task ((hmem task htask _).2 rfl)
  refine
    { ids_perm := h.ids_perm
      ids_nodup := h.ids_perm.nodup_iff.1 h.nodup
      queue_eq := fun queue task htask => (h.holds (.queued queue) task htask).1.1
      waiting_iff := fun task htask => (?_ : _ ↔ task ∈ engine.tasksAt (.queued .pendingAsync))
      pending_iff := fun task htask => (?_ : _ ↔ task ∈ engine.tasksAt (.queued .callStack) ∨
        task ∈ engine.tasksAt (.queued .callbackQueue) ∨
        task ∈ engine.tasksAt (.queued .deferredQueue))
      executing_iff := fun task htask => (?_ : _ ↔ task ∈ engine.tasksAt .inFlight)
      find?_inFlight := fun task htask => h.find?_inFlight htask
      ended_iff := fun task htask => (?_ : _ ↔ task ∈ engine.tasksAt .finished)
      deferred_of_high := fun task htask => (hholds task htask).2 }
  -- each equivalence is now one between a place and the status that tells it
  all_goals
    have hqueue := (hholds task htask).queue_eq_iff
    simp only [hmem task htask, Task.place]
  · cases hstatus : task.status <;> simp_all
  · cases hstatus : task.status <;> cases hname : task.queue <;> simp_all
  · cases hstatus : task.status <;> simp
  · cases hstatus : task.status <;> simp

/-- **The places of an engine partition the tasks submitted since the last
reset**, whatever the operations of a run, and ids only grow, across resets
too. -/
theorem partitioned_of_run (capacity : Nat) (operations : List Operation) :
    let (answers, engine) := (withTraceCapacity capacity).performAll operations
    engine.Partitioned (liveIds answers) ∧ (issued answers).Pairwise (· < ·) :=
  ⟨(placed_of_run capacity operations).partitioned, (issued_increasing _ operations).1⟩

end Engine

end EventLoop
