import EventLoop.Engine.Basic
import EventLoop.Proofs.Engine.Containers
import Mathlib.Algebra.BigOperators.Group.List.Basic
import Mathlib.Algebra.GroupWithZero.Nat

/-!
# How tasks pass from place to place

A task of an engine is at a `Place`: in one of the four containers, among the
executing tasks, or among the finished ones.  `start`, `complete`, `fail` and
`advanceTimer` either refuse, and then only the trace changes, or they are a
`Passage`: one task leaves one place and enters another one under the same id,
and every other place stays as it is.

The equations of this file say exactly when each operation does which of the
two and what state it leads to.  Facts about the places of tasks follow from
passages alone; facts about the order within a container follow from the
equations.
-/

namespace EventLoop

/-- Where a task of an engine can be. -/
inductive Place where
  | queued (queue : Queue)
  | inFlight
  | finished
  deriving DecidableEq

/-- All places. -/
def Place.all : List Place :=
  [.queued .callStack, .queued .pendingAsync, .queued .callbackQueue, .queued .deferredQueue,
   .inFlight, .finished]

theorem Place.mem_all (place : Place) : place ∈ all := by
  cases place with
  | queued queue => cases queue <;> simp [all]
  | inFlight => simp [all]
  | finished => simp [all]

theorem Place.sum_all_ite (place : Place) (count : Nat) :
    (all.map fun other => if other = place then count else 0).sum = count := by
  cases place with
  | queued queue => cases queue <;> simp [all]
  | inFlight => simp [all]
  | finished => simp [all]

namespace Engine

/-- The tasks at a place, in their order there. -/
def tasksAt (engine : Engine) : Place → List Task
  | .queued queue => engine.queues.get queue
  | .inFlight => engine.inFlight
  | .finished => engine.finished

/-- All tasks of an engine. -/
def tasks (engine : Engine) : List Task :=
  Place.all.flatMap engine.tasksAt

theorem mem_tasks {engine : Engine} {task : Task} :
    task ∈ engine.tasks ↔ ∃ place, task ∈ engine.tasksAt place := by
  simp only [tasks, List.mem_flatMap]
  exact ⟨fun ⟨place, _, h⟩ => ⟨place, h⟩, fun ⟨place, h⟩ => ⟨place, place.mem_all, h⟩⟩

/-- How often an id occurs in an engine is told by how often it occurs at each
place: a change at one place on either side is the whole change. -/
theorem count_tasks_add {engine next : Engine} {id lost gained : Nat} {source target : Place}
    (h : ∀ place, ((next.tasksAt place).map Task.id).count id
        + (if place = source then lost else 0) =
      ((engine.tasksAt place).map Task.id).count id + (if place = target then gained else 0)) :
    (next.tasks.map Task.id).count id + lost = (engine.tasks.map Task.id).count id + gained := by
  have htotal : ∀ state : Engine, (state.tasks.map Task.id).count id =
      (Place.all.map fun place => ((state.tasksAt place).map Task.id).count id).sum := by
    intro state
    rw [tasks, List.map_flatMap, List.count_flatMap]
    rfl
  -- the equations of the places add up to one for the whole engine
  have hsum := congrArg List.sum (List.map_congr_left fun place (_ : place ∈ Place.all) => h place)
  rw [List.sum_map_add, List.sum_map_add, Place.sum_all_ite, Place.sum_all_ite] at hsum
  rw [htotal, htotal]
  exact hsum

/-- One task goes from a place to another one, perhaps changed, and nothing
else moves. -/
structure Passage (engine next : Engine) (source target : Place) (task moved : Task) : Prop where
  source_ne_target : source ≠ target
  id_eq : moved.id = task.id
  leaves : (engine.tasksAt source).Perm (task :: next.tasksAt source)
  enters : (next.tasksAt target).Perm (moved :: engine.tasksAt target)
  stays : ∀ place, place ≠ source → place ≠ target → next.tasksAt place = engine.tasksAt place
  nextId_eq : next.nextId = engine.nextId

namespace Passage

variable {engine next : Engine} {source target : Place} {task moved : Task}

/-- After a passage a task is where it was, or it is the one that moved. -/
theorem mem_or_eq (h : Passage engine next source target task moved) {place : Place}
    {other : Task} (hother : other ∈ next.tasksAt place) :
    other ∈ engine.tasksAt place ∨ place = target ∧ other = moved := by
  by_cases htarget : place = target
  · subst htarget
    rcases List.mem_cons.1 (h.enters.mem_iff.1 hother) with rfl | hmem
    · exact .inr ⟨rfl, rfl⟩
    · exact .inl hmem
  · by_cases hsource : place = source
    · subst hsource
      exact .inl (h.leaves.mem_iff.2 (List.mem_cons_of_mem _ hother))
    · exact .inl (h.stays place hsource htarget ▸ hother)

/-- What a passage does to the number of times that an id occurs at a place. -/
private theorem count_at (h : Passage engine next source target task moved) (id : Nat)
    (place : Place) :
    ((next.tasksAt place).map Task.id).count id
        + (if place = source then [task.id].count id else 0) =
      ((engine.tasksAt place).map Task.id).count id
        + (if place = target then [task.id].count id else 0) := by
  by_cases htarget : place = target
  · subst htarget
    have hcount := (h.enters.map Task.id).count_eq id
    rw [if_neg h.source_ne_target.symm, if_pos rfl, hcount]
    simp [List.count_cons, h.id_eq]
  · by_cases hsource : place = source
    · subst hsource
      have hcount := (h.leaves.map Task.id).count_eq id
      rw [if_pos rfl, if_neg htarget, hcount]
      simp [List.count_cons]
    · rw [if_neg hsource, if_neg htarget, h.stays place hsource htarget]

/-- A passage keeps the ids of an engine, each as often as it occurs. -/
theorem perm_ids (h : Passage engine next source target task moved) :
    (next.tasks.map Task.id).Perm (engine.tasks.map Task.id) :=
  List.perm_iff_count.2 fun id => Nat.add_right_cancel (count_tasks_add (h.count_at id))

end Passage

/-! ## Submission -/

section Submission

variable (engine : Engine) (step : Step)

theorem submit_queues :
    (engine.submit step).2.queues = engine.queues.push (Task.ofStep engine.nextId step) := by
  simp only [submit, record, startTimer]
  split <;> rfl

theorem submit_inFlight : (engine.submit step).2.inFlight = engine.inFlight := by
  simp only [submit, record, startTimer]
  split <;> rfl

theorem submit_finished : (engine.submit step).2.finished = engine.finished := by
  simp only [submit, record, startTimer]
  split <;> rfl

theorem submit_nextId : (engine.submit step).2.nextId = engine.nextId + 1 := by
  simp only [submit, record, startTimer]
  split <;> rfl

theorem submit_now : (engine.submit step).2.now = engine.now := by
  simp only [submit, record, startTimer, now]
  split <;> rfl

theorem submit_nextTimer :
    (engine.submit step).2.clock.nextTimer =
      if step.targetQueue = .pendingAsync then engine.clock.nextTimer + 1
      else engine.clock.nextTimer := by
  by_cases h : step.targetQueue = .pendingAsync <;>
    simp [submit, record, startTimer, Task.ofStep, Clock.register, h]

theorem submit_timers :
    (engine.submit step).2.timers =
      if step.targetQueue = .pendingAsync then
        engine.timers.schedule
          ⟨later engine.now step.delayMs, engine.clock.nextTimer, engine.nextId⟩
      else engine.timers := by
  by_cases h : step.targetQueue = .pendingAsync <;>
    simp [submit, record, startTimer, Task.ofStep, Clock.register, now, h]

/-- A submission puts the new task at the end of the container that the step
targets, and nothing else moves. -/
theorem tasksAt_submit (place : Place) :
    (engine.submit step).2.tasksAt place =
      if place = .queued step.targetQueue then
        engine.tasksAt place ++ [Task.ofStep engine.nextId step]
      else engine.tasksAt place := by
  cases place with
  | queued queue =>
      simp only [tasksAt, submit_queues, Queues.get_push, Place.queued.injEq]
      rfl
  | inFlight => simpa [tasksAt] using submit_inFlight engine step
  | finished => simpa [tasksAt] using submit_finished engine step

/-- After a submission a task is where it was, or it is the new one. -/
theorem mem_tasksAt_submit {place : Place} {task : Task} :
    task ∈ (engine.submit step).2.tasksAt place ↔ task ∈ engine.tasksAt place ∨
      place = .queued step.targetQueue ∧ task = Task.ofStep engine.nextId step := by
  rw [tasksAt_submit]
  split <;> simp [*]

end Submission

theorem tasksAt_reset (engine : Engine) (place : Place) : engine.reset.tasksAt place = [] := by
  cases place with
  | queued queue => cases queue <;> rfl
  | inFlight => rfl
  | finished => rfl

/-! ## The executing tasks -/

theorem insertInFlight_perm {task : Task} {tasks : List Task}
    (h : ∀ other ∈ tasks, other.id ≠ task.id) :
    (insertInFlight task tasks).Perm (task :: tasks) := by
  induction tasks with
  | nil => exact .refl _
  | cons first rest ih =>
      have hne : first.id ≠ task.id := h first List.mem_cons_self
      unfold insertInFlight
      split
      · exact .refl _
      · rw [if_pos (by omega)]
        exact ((ih fun other hother => h other (List.mem_cons_of_mem _ hother)).cons first).trans
          (.swap _ _ _)

theorem insertInFlight_sorted {task : Task} {tasks : List Task}
    (h : ∀ other ∈ tasks, other.id ≠ task.id) (hsorted : tasks.Pairwise (·.id < ·.id)) :
    (insertInFlight task tasks).Pairwise (·.id < ·.id) := by
  induction tasks with
  | nil => simp [insertInFlight]
  | cons first rest ih =>
      obtain ⟨hfirst, hrest⟩ := List.pairwise_cons.1 hsorted
      have hne : first.id ≠ task.id := h first List.mem_cons_self
      have hnext : ∀ other ∈ rest, other.id ≠ task.id := fun other hother =>
        h other (List.mem_cons_of_mem _ hother)
      unfold insertInFlight
      split
      · rename_i hlt
        refine List.pairwise_cons.2 ⟨fun other hother => ?_, hsorted⟩
        rcases List.mem_cons.1 hother with rfl | hother
        · exact hlt
        · exact Nat.lt_trans hlt (hfirst other hother)
      · rw [if_pos (by omega)]
        refine List.pairwise_cons.2 ⟨fun other hother => ?_, ih hnext hrest⟩
        rcases List.mem_cons.1 ((insertInFlight_perm hnext).mem_iff.1 hother) with rfl | hother
        · omega
        · exact hfirst other hother

/-! ## What each operation does -/

section Equations

variable {engine : Engine} {id : Nat} {queue : Queue} {before after : List Task} {task : Task}

theorem start_absent (h : engine.queues.Absent id) :
    engine.start id = engine.refuse id .executing := by
  simp only [start, h.take_eq]

theorem start_found (h : engine.queues.Found id queue before task after) :
    engine.start id =
      if task.status = .pending then
        (.ok { task with status := .executing },
          { engine.record id .started ("Started " ++ task.description) with
            queues := engine.queues.modify queue fun _ => before ++ after
            inFlight := insertInFlight { task with status := .executing } engine.inFlight })
      else engine.refuse id .executing := by
  simp only [start, h.take_eq]
  split <;> rfl

theorem complete_missing (h : engine.inFlight.find? (·.id = id) = none) :
    engine.complete id = engine.refuse id .completed := by
  simp only [complete, h]

theorem complete_executing (h : engine.inFlight.find? (·.id = id) = some task) :
    engine.complete id =
      let ended := { task with status := .completed }
      let told :=
        (engine.record id .completed ("Completed " ++ task.description)).recordResult ended
      (.ok ended, { told with
        inFlight := engine.inFlight.eraseP (·.id = id)
        finished := engine.finished ++ [ended] }) := by
  simp only [complete, h, recordResult]
  split <;> rfl

/-- A completion leaves alone what waits. -/
theorem complete_frame (engine : Engine) (id : Nat) :
    (engine.complete id).2.timers = engine.timers ∧
      (engine.complete id).2.clock = engine.clock ∧
        (engine.complete id).2.queues = engine.queues := by
  unfold complete recordResult
  split
  · exact ⟨rfl, rfl, rfl⟩
  · dsimp only
    split <;> exact ⟨rfl, rfl, rfl⟩

theorem fail_executing (h : engine.inFlight.find? (·.id = id) = some task) (reason : String) :
    engine.fail id reason =
      { engine with inFlight := engine.inFlight.eraseP (·.id = id) }.fileFailure task reason := by
  simp only [fail, h]

theorem fail_absent (hflight : engine.inFlight.find? (·.id = id) = none)
    (h : engine.queues.Absent id) (reason : String) :
    engine.fail id reason = engine.refuse id .error := by
  simp only [fail, hflight, h.take_eq]

theorem fail_found (hflight : engine.inFlight.find? (·.id = id) = none)
    (h : engine.queues.Found id queue before task after) (reason : String) :
    engine.fail id reason =
      { engine with
        queues := engine.queues.modify queue fun _ => before ++ after
        timers :=
          if queue = Queue.pendingAsync then engine.timers.cancel id
          else engine.timers }.fileFailure task reason := by
  simp only [fail, hflight, h.take_eq, h.locate_eq, Option.some.injEq]

theorem advanceTimer_found (h : engine.queues.Found id .pendingAsync before task after) :
    engine.advanceTimer id =
      (.ok (), { engine.record id .timerElapsed (arrival task.description .callbackQueue) with
        timers := engine.timers.cancel id
        queues := (engine.queues.modify .pendingAsync fun _ => before ++ after).push
          { task with status := .pending, queue := .callbackQueue } }) := by
  simp only [advanceTimer, h.locate_eq, h.take_eq]
  rfl

theorem advanceTimer_elsewhere (h : engine.queues.locate id ≠ some .pendingAsync) :
    engine.advanceTimer id = engine.refuse id .pending := by
  unfold advanceTimer
  split
  · rename_i hlocate _
    exact absurd hlocate h
  · rfl

end Equations

/-! ## Each move is a passage -/

section Passages

variable {engine : Engine} {id : Nat} {queue : Queue} {before after : List Task} {task : Task}

private theorem leaves_found (h : engine.queues.Found id queue before task after) :
    (engine.queues.get queue).Perm
      (task :: (engine.queues.modify queue fun _ => before ++ after).get queue) := by
  rw [h.get_eq, Queues.get_modify_self]
  exact List.perm_middle

private theorem leaves_inFlight (h : engine.inFlight.find? (·.id = id) = some task) :
    engine.inFlight.Perm (task :: engine.inFlight.eraseP (·.id = id)) := by
  obtain ⟨before, after, hsplit, _, _, herase⟩ := Task.split_of_find? h
  rw [herase, hsplit]
  exact List.perm_middle

theorem start_passage (h : engine.queues.Found id queue before task after)
    (hfresh : ∀ other ∈ engine.inFlight, other.id ≠ task.id) (hstatus : task.status = .pending) :
    Passage engine (engine.start id).2 (.queued queue) .inFlight task
      { task with status := .executing } := by
  rw [start_found h, if_pos hstatus]
  refine ⟨by simp, rfl, leaves_found h, insertInFlight_perm hfresh, ?_, rfl⟩
  intro place hsource htarget
  cases place with
  | queued other => exact Queues.get_modify_of_ne _ _ fun heq => hsource (by rw [heq])
  | inFlight => exact absurd rfl htarget
  | finished => rfl

theorem complete_passage (h : engine.inFlight.find? (·.id = id) = some task) :
    Passage engine (engine.complete id).2 .inFlight .finished task
      { task with status := .completed } := by
  obtain ⟨-, -, hqueues⟩ := complete_frame engine id
  have hnext : (engine.complete id).2.nextId = engine.nextId := by
    rw [complete_executing h]
    simp only [recordResult]
    split <;> rfl
  refine ⟨by simp, rfl, ?_, ?_, ?_, hnext⟩
  · rw [complete_executing h]
    exact leaves_inFlight h
  · rw [complete_executing h]
    exact List.perm_append_singleton _ _
  · intro place hsource htarget
    cases place with
    | queued other => simp only [tasksAt, hqueues]
    | inFlight => exact absurd rfl hsource
    | finished => exact absurd rfl htarget

theorem fail_executing_passage (h : engine.inFlight.find? (·.id = id) = some task)
    (reason : String) :
    Passage engine (engine.fail id reason).2 .inFlight .finished task
      { task with status := .error } := by
  rw [fail_executing h]
  refine ⟨by simp, rfl, leaves_inFlight h, List.perm_append_singleton _ _, ?_, rfl⟩
  intro place hsource htarget
  cases place with
  | queued other => rfl
  | inFlight => exact absurd rfl hsource
  | finished => exact absurd rfl htarget

theorem fail_queued_passage (hflight : engine.inFlight.find? (·.id = id) = none)
    (h : engine.queues.Found id queue before task after) (reason : String) :
    Passage engine (engine.fail id reason).2 (.queued queue) .finished task
      { task with status := .error } := by
  rw [fail_found hflight h]
  refine ⟨by simp, rfl, leaves_found h, List.perm_append_singleton _ _, ?_, rfl⟩
  intro place hsource htarget
  cases place with
  | queued other => exact Queues.get_modify_of_ne _ _ fun heq => hsource (by rw [heq])
  | inFlight => rfl
  | finished => exact absurd rfl htarget

theorem advanceTimer_passage (h : engine.queues.Found id .pendingAsync before task after) :
    Passage engine (engine.advanceTimer id).2 (.queued .pendingAsync) (.queued .callbackQueue) task
      { task with status := .pending, queue := .callbackQueue } := by
  rw [advanceTimer_found h]
  refine ⟨by simp, rfl, leaves_found h, List.perm_append_singleton _ _, ?_, rfl⟩
  intro place hsource htarget
  cases place with
  | queued other => cases other <;> first | rfl | contradiction
  | inFlight => rfl
  | finished => rfl

end Passages

end Engine

end EventLoop
