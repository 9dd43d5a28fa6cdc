import EventLoop.Proofs.Engine.Partition

/-!
# When operations are refused

An operation that is to bring a task to a status can be refused.  `Guarded`
says of such an operation when it succeeds, what a refusal tells, and that a
refusal leaves nothing behind but a warning.

In a reachable state the places of an engine partition its tasks, so that a
task is found wherever it is (`task?_eq_some_iff`), and a condition on the
places of a task decides between success and refusal.  The other ways in which
an operation could fail, such as a task that is located but cannot be taken,
do not occur.
-/

namespace EventLoop

namespace Engine

/-- The ids of the tasks at a place, in their order there. -/
def idsAt (engine : Engine) (place : Place) : List Nat :=
  (engine.tasksAt place).map Task.id

/-- An operation that is to bring the task with an id to a status is guarded by
a condition. -/
structure Guarded {α : Type} (engine : Engine) (id : Nat) (requested : TaskStatus) (ready : Prop)
    (outcome : Except EngineError α × Engine) : Prop where
  /-- It succeeds if and only if the condition holds. -/
  succeeds_iff : (∃ value, outcome.1 = .ok value) ↔ ready
  /-- It does not find the task if and only if the id is at none of the places. -/
  notFound_iff : outcome.1 = .error (.taskNotFound id) ↔ ∀ place, id ∉ engine.idsAt place
  /-- A task that is somewhere else cannot go from its status to the requested one. -/
  invalid_of_not_ready : ¬ ready → ∀ task ∈ engine.tasks, task.id = id →
    outcome.1 = .error (.invalidTransition id task.status requested)
  /-- A refusal is recorded as a warning about the id, and nothing else changes. -/
  unchanged : ∀ error, outcome.1 = .error error →
    outcome.2 = { engine with
      trace := engine.trace.record engine.now (some id) .warning error.message }

variable {engine : Engine} {ids : List Nat} {id : Nat}

/-! ## Where a task is found -/

theorem mem_idsAt {place : Place} :
    id ∈ engine.idsAt place ↔ ∃ task ∈ engine.tasksAt place, task.id = id :=
  List.mem_map

theorem mem_idsAt_of_found {queue : Queue} {before after : List Task} {task : Task}
    (h : engine.queues.Found id queue before task after) : id ∈ engine.idsAt (.queued queue) :=
  mem_idsAt.2 ⟨task, h.mem, h.id_eq⟩

theorem not_mem_idsAt_of_absent (h : engine.queues.Absent id) (queue : Queue) :
    id ∉ engine.idsAt (.queued queue) := fun hmem => by
  obtain ⟨task, htask, hid⟩ := mem_idsAt.1 hmem
  exact h.ne_of_mem queue task htask hid

theorem find?_inFlight_eq_none_iff :
    engine.inFlight.find? (·.id = id) = none ↔ id ∉ engine.idsAt .inFlight := by
  rw [List.find?_eq_none, mem_idsAt]
  simp [tasksAt]

theorem mem_idsAt_of_find? {task : Task} (h : engine.inFlight.find? (·.id = id) = some task) :
    id ∈ engine.idsAt .inFlight :=
  mem_idsAt.2 ⟨task, List.mem_of_find?_eq_some h, by simpa using List.find?_some h⟩

theorem Placed.place_eq (h : engine.Placed ids) {first second : Place}
    (hfirst : id ∈ engine.idsAt first) (hsecond : id ∈ engine.idsAt second) : first = second := by
  obtain ⟨task, htask, hid⟩ := mem_idsAt.1 hfirst
  obtain ⟨other, hother, heq⟩ := mem_idsAt.1 hsecond
  exact (h.eq_of_id_eq first second htask hother (hid.trans heq.symm)).2

theorem mem_tasks_of_task? {task : Task} (h : engine.task? id = some task) :
    task ∈ engine.tasks ∧ task.id = id := by
  simp only [task?, Option.orElse_eq_orElse, Option.orElse_eq_or, Option.or_eq_some_iff] at h
  rcases h with hqueued | ⟨-, hflight | ⟨-, hfinished⟩⟩
  · rcases engine.queues.absent_or_found id with habsent | ⟨queue, before, found, after, hfound⟩
    · rw [habsent.find_eq] at hqueued
      contradiction
    · rw [hfound.find_eq, Option.some.injEq] at hqueued
      subst hqueued
      exact ⟨mem_tasks.2 ⟨.queued queue, hfound.mem⟩, hfound.id_eq⟩
  · exact ⟨mem_tasks.2 ⟨.inFlight, List.mem_of_find?_eq_some hflight⟩,
      by simpa using List.find?_some hflight⟩
  · exact ⟨mem_tasks.2 ⟨.finished, List.mem_of_find?_eq_some hfinished⟩,
      by simpa using List.find?_some hfinished⟩

/-- The look-up misses an id only if it is nowhere. -/
theorem task?_eq_none_iff : engine.task? id = none ↔ ∀ place, id ∉ engine.idsAt place := by
  constructor
  · intro h place hmem
    obtain ⟨task, htask, hid⟩ := mem_idsAt.1 hmem
    simp only [task?, Option.orElse_eq_orElse, Option.orElse_eq_or, Option.or_eq_none_iff] at h
    obtain ⟨hqueued, hflight, hfinished⟩ := h
    cases place with
    | queued queue =>
        rcases engine.queues.absent_or_found id with habsent | ⟨other, before, found, after, hfound⟩
        · exact habsent.ne_of_mem queue task htask hid
        · rw [hfound.find_eq] at hqueued
          contradiction
    | inFlight => exact List.find?_eq_none.1 hflight task htask (by simpa using hid)
    | finished => exact List.find?_eq_none.1 hfinished task htask (by simpa using hid)
  · intro h
    cases htask : engine.task? id with
    | none => rfl
    | some task =>
        obtain ⟨hmem, hid⟩ := mem_tasks_of_task? htask
        obtain ⟨place, hplace⟩ := mem_tasks.1 hmem
        exact absurd (mem_idsAt.2 ⟨task, hplace, hid⟩) (h place)

theorem Placed.task?_eq_some_iff (h : engine.Placed ids) {task : Task} :
    engine.task? id = some task ↔ task ∈ engine.tasks ∧ task.id = id := by
  refine ⟨mem_tasks_of_task?, fun ⟨hmem, hid⟩ => ?_⟩
  obtain ⟨place, htask⟩ := mem_tasks.1 hmem
  cases hlookup : engine.task? id with
  | none => exact absurd (mem_idsAt.2 ⟨task, htask, hid⟩) (task?_eq_none_iff.1 hlookup place)
  | some other =>
      obtain ⟨hother, heq⟩ := mem_tasks_of_task? hlookup
      obtain ⟨second, hsecond⟩ := mem_tasks.1 hother
      rw [(h.eq_of_id_eq second place hsecond htask (heq.trans hid.symm)).1]

/-! ## Success and refusal -/

variable {α : Type} {requested : TaskStatus} {ready : Prop} {outcome : Except EngineError α × Engine}

theorem Guarded.of_ok {place : Place} {value : α} (hready : ready)
    (hmem : id ∈ engine.idsAt place) (hok : outcome.1 = .ok value) :
    engine.Guarded id requested ready outcome where
  succeeds_iff := ⟨fun _ => hready, fun _ => ⟨value, hok⟩⟩
  notFound_iff := by
    rw [hok]
    exact ⟨fun h => by contradiction, fun h => absurd hmem (h place)⟩
  invalid_of_not_ready hnot := absurd hready hnot
  unchanged error herror := by
    rw [hok] at herror
    contradiction

theorem Placed.guarded_of_refused (h : engine.Placed ids) (hready : ¬ ready)
    (hrefused : outcome = engine.refuse id requested) :
    engine.Guarded id requested ready outcome := by
  have hid : (engine.refusal id requested).taskId = id := by
    unfold refusal
    split <;> rfl
  rw [hrefused]
  refine ⟨⟨fun ⟨_, hok⟩ => by contradiction, fun hr => absurd hr hready⟩, ?_, ?_, ?_⟩
  · rw [← task?_eq_none_iff]
    cases htask : engine.task? id <;> simp [refuse, refusal, htask]
  · intro _ task htask heq
    simp [refuse, refusal, h.task?_eq_some_iff.2 ⟨htask, heq⟩]
  · intro error herror
    obtain rfl : engine.refusal id requested = error := Except.error.inj herror
    simp only [refuse, report, record, hid]

/-! ## The four operations on a task -/

theorem Placed.guarded_start (h : engine.Placed ids) (id : Nat) :
    engine.Guarded id .executing
      (id ∈ engine.idsAt (.queued .callStack) ∨ id ∈ engine.idsAt (.queued .callbackQueue) ∨
        id ∈ engine.idsAt (.queued .deferredQueue))
      (engine.start id) := by
  rcases engine.queues.absent_or_found id with habsent | ⟨queue, before, task, after, hfound⟩
  · have hnone := not_mem_idsAt_of_absent habsent
    exact h.guarded_of_refused (by simp [hnone]) (start_absent habsent)
  · have hmem := mem_idsAt_of_found hfound
    have hstatus := (h.holds (.queued queue) task hfound.mem).1.2
    by_cases hqueue : queue = .pendingAsync
    · -- a task that waits for its timer is nowhere else, and it is refused
      subst hqueue
      refine h.guarded_of_refused ?_ ?_
      · rintro (hother | hother | hother) <;>
          exact absurd (h.place_eq hmem hother) (by simp)
      · rw [start_found hfound, if_neg (by simp [hstatus, Queue.status])]
    · have hpending : task.status = .pending := by
        rw [hstatus]
        cases queue <;> first | rfl | exact absurd rfl hqueue
      refine .of_ok ?_ hmem (by rw [start_found hfound, if_pos hpending])
      cases queue with
      | callStack => exact .inl hmem
      | pendingAsync => exact absurd rfl hqueue
      | callbackQueue => exact .inr (.inl hmem)
      | deferredQueue => exact .inr (.inr hmem)

theorem Placed.guarded_complete (h : engine.Placed ids) (id : Nat) :
    engine.Guarded id .completed (id ∈ engine.idsAt .inFlight) (engine.complete id) := by
  cases hfind : engine.inFlight.find? (·.id = id) with
  | none =>
      exact h.guarded_of_refused (find?_inFlight_eq_none_iff.1 hfind) (complete_missing hfind)
  | some task =>
      have hmem := mem_idsAt_of_find? hfind
      exact .of_ok hmem hmem (by rw [complete_executing hfind])

theorem Placed.guarded_fail (h : engine.Placed ids) (id : Nat) (reason : String) :
    engine.Guarded id .error
      ((∃ queue, id ∈ engine.idsAt (.queued queue)) ∨ id ∈ engine.idsAt .inFlight)
      (engine.fail id reason) := by
  cases hfind : engine.inFlight.find? (·.id = id) with
  | some task =>
      have hmem := mem_idsAt_of_find? hfind
      exact .of_ok (.inr hmem) hmem (by rw [fail_executing hfind]; rfl)
  | none =>
      rcases engine.queues.absent_or_found id with habsent | ⟨queue, before, task, after, hfound⟩
      · refine h.guarded_of_refused ?_ (fail_absent hfind habsent reason)
        rintro (⟨queue, hmem⟩ | hmem)
        · exact not_mem_idsAt_of_absent habsent queue hmem
        · exact find?_inFlight_eq_none_iff.1 hfind hmem
      · have hmem := mem_idsAt_of_found hfound
        exact .of_ok (.inl ⟨queue, hmem⟩) hmem (by rw [fail_found hfind hfound]; rfl)

theorem Placed.guarded_advanceTimer (h : engine.Placed ids) (id : Nat) :
    engine.Guarded id .pending (id ∈ engine.idsAt (.queued .pendingAsync))
      (engine.advanceTimer id) := by
  obtain ⟨before, task, after, hfound⟩ | helsewhere :=
    engine.queues.found_or_elsewhere id .pendingAsync
  · have hmem := mem_idsAt_of_found hfound
    exact .of_ok hmem hmem (by rw [advanceTimer_found hfound])
  · refine h.guarded_of_refused (fun hmem => ?_) (advanceTimer_elsewhere helsewhere)
    obtain ⟨task, htask, rfl⟩ := mem_idsAt.1 hmem
    have hqueued : task ∈ engine.queues.get .pendingAsync := htask
    obtain ⟨before, after, hfound⟩ := h.found hqueued
    exact helsewhere hfound.locate_eq

/-- **Every operation on a task succeeds exactly when the task is where the
operation needs it**, in every state that a run reaches and for every id, and a
refusal tells the reason and changes nothing. -/
theorem guarded_of_run (capacity : Nat) (operations : List Operation) (id : Nat)
    (reason : String) :
    let engine := ((withTraceCapacity capacity).performAll operations).2
    engine.Guarded id .executing
        (id ∈ engine.idsAt (.queued .callStack) ∨ id ∈ engine.idsAt (.queued .callbackQueue) ∨
          id ∈ engine.idsAt (.queued .deferredQueue))
        (engine.start id) ∧
      engine.Guarded id .completed (id ∈ engine.idsAt .inFlight) (engine.complete id) ∧
      engine.Guarded id .error
        ((∃ queue, id ∈ engine.idsAt (.queued queue)) ∨ id ∈ engine.idsAt .inFlight)
        (engine.fail id reason) ∧
      engine.Guarded id .pending (id ∈ engine.idsAt (.queued .pendingAsync))
        (engine.advanceTimer id) := by
  have hplaced := placed_of_run capacity operations
  exact ⟨hplaced.guarded_start id, hplaced.guarded_complete id, hplaced.guarded_fail id reason,
    hplaced.guarded_advanceTimer id⟩

end Engine

end EventLoop
