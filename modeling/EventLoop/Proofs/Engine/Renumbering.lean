import EventLoop.Proofs.Engine.Turn

/-!
# Renumbering tasks

Ids are told apart and compared, and otherwise an engine does not look at them.
So two engines whose tasks differ by a constant number in their ids, and in
nothing else, stay so (`Renumbered.perform`): what the one does to the task with
an id, the other does to the task with the id that is larger by that number, and
they answer alike.  Ids are also printed, but only in refusals; the messages of
all other events are the same.

A reset forgets everything but the next id.  An engine that is reset is
therefore a new engine with other ids, and this is all that ever tells the two
apart (`fresh_start_of_reset`).
-/

namespace EventLoop

namespace EngineError

/-- The refusal of the same request about a task with a larger id. -/
def renumber (offset : Nat) : EngineError → EngineError
  | .taskNotFound id => .taskNotFound (id + offset)
  | .invalidTransition id current requested =>
    .invalidTransition (id + offset) current requested

theorem taskId_renumber (offset : Nat) (error : EngineError) :
    (error.renumber offset).taskId = error.taskId + offset := by
  cases error <;> rfl

end EngineError

/-- The same task with a larger id. -/
def Task.renumber (offset : Nat) (task : Task) : Task :=
  { task with id := task.id + offset }

@[simp] theorem Task.renumber_id (offset : Nat) (task : Task) :
    (task.renumber offset).id = task.id + offset := rfl

theorem Task.ofStep_add (offset id : Nat) (step : Step) :
    Task.ofStep (id + offset) step = (Task.ofStep id step).renumber offset := rfl

/-! ## Looking tasks up -/

section Lists

variable (offset : Nat) (tasks : List Task) (id : Nat)

theorem Task.find?_renumber :
    (tasks.map (Task.renumber offset)).find? (·.id = id + offset) =
      (tasks.find? (·.id = id)).map (Task.renumber offset) := by
  rw [List.find?_map]
  congr 2
  funext task
  simp

theorem Task.eraseP_renumber :
    (tasks.map (Task.renumber offset)).eraseP (·.id = id + offset) =
      (tasks.eraseP (·.id = id)).map (Task.renumber offset) := by
  rw [List.eraseP_map]
  congr 2
  funext task
  simp

end Lists

namespace Queues

/-- The same tasks with larger ids. -/
def renumber (offset : Nat) (queues : Queues) : Queues :=
  { callStack := queues.callStack.map (Task.renumber offset)
    pendingAsync := queues.pendingAsync.map (Task.renumber offset)
    callbackQueue := queues.callbackQueue.map (Task.renumber offset)
    deferredQueue := queues.deferredQueue.map (Task.renumber offset) }

variable (offset : Nat) (queues : Queues) (id : Nat)

theorem get_renumber (queue : Queue) :
    (queues.renumber offset).get queue = (queues.get queue).map (Task.renumber offset) := by
  cases queue <;> rfl

theorem push_renumber (task : Task) :
    (queues.renumber offset).push (task.renumber offset) =
      (queues.push task).renumber offset := by
  cases hqueue : task.queue <;> simp [push, modify, renumber, Task.renumber, hqueue]

theorem locate_renumber :
    (queues.renumber offset).locate (id + offset) = queues.locate id := by
  unfold locate
  congr 1
  funext queue
  rw [get_renumber, List.any_map]
  congr 1
  funext task
  simp

theorem find?_renumber :
    (queues.renumber offset).find? (id + offset) =
      (queues.find? id).map (Task.renumber offset) := by
  unfold find?
  rw [List.map_findSome?]
  congr 1
  funext queue
  rw [get_renumber, Task.find?_renumber]
  rfl

theorem modify_renumber (queue : Queue) (change renumbered : List Task → List Task)
    (h : ∀ tasks, renumbered (tasks.map (Task.renumber offset)) =
      (change tasks).map (Task.renumber offset)) :
    (queues.renumber offset).modify queue renumbered =
      (queues.modify queue change).renumber offset := by
  cases queue <;> simp [modify, renumber, h]

theorem modify_renumber_const (queue : Queue) (before after : List Task) :
    ((queues.renumber offset).modify queue fun _ =>
        before.map (Task.renumber offset) ++ after.map (Task.renumber offset)) =
      (queues.modify queue fun _ => before ++ after).renumber offset := by
  simp only [← List.map_append]
  exact modify_renumber offset queues queue (fun _ => before ++ after) _ fun _ => rfl

theorem take_renumber :
    (queues.renumber offset).take (id + offset) =
      (queues.take id).map fun taken => (taken.1.renumber offset, taken.2.renumber offset) := by
  rw [take, take, locate_renumber]
  cases queues.locate id with
  | none => rfl
  | some queue =>
      rw [Option.bind_some, Option.bind_some, get_renumber, Task.find?_renumber, Option.map_map,
        Option.map_map]
      congr 1
      funext task
      have hmodify := queues.modify_renumber offset queue (·.eraseP (·.id = id)) _ fun tasks =>
        Task.eraseP_renumber offset tasks id
      exact congrArg (Prod.mk _) hmodify

theorem isEmpty_renumber : (queues.renumber offset).isEmpty = queues.isEmpty := by
  simp [isEmpty, size, renumber]

variable {queues id}

theorem Absent.renumber (h : queues.Absent id) :
    (queues.renumber offset).Absent (id + offset) := by
  refine ⟨fun queue task htask => ?_, ?_, ?_, ?_⟩
  · rw [get_renumber] at htask
    obtain ⟨original, horiginal, rfl⟩ := List.mem_map.1 htask
    have hne := h.ne_of_mem queue original horiginal
    rw [Task.renumber_id]
    omega
  · rw [locate_renumber, h.locate_eq]
  · rw [find?_renumber, h.find_eq]
    rfl
  · rw [take_renumber, h.take_eq]
    rfl

theorem Found.renumber {queue : Queue} {before after : List Task} {task : Task}
    (h : queues.Found id queue before task after) :
    (queues.renumber offset).Found (id + offset) queue (before.map (Task.renumber offset))
      (task.renumber offset) (after.map (Task.renumber offset)) := by
  refine ⟨?_, ?_, fun other hother => ?_, ?_, ?_, ?_⟩
  · rw [get_renumber, h.get_eq, List.map_append, List.map_cons]
  · rw [Task.renumber_id, h.id_eq]
  · obtain ⟨original, horiginal, rfl⟩ := List.mem_map.1 hother
    have hne := h.ne_of_mem_before original horiginal
    rw [Task.renumber_id]
    omega
  · rw [locate_renumber, h.locate_eq]
  · rw [find?_renumber, h.find_eq]
    rfl
  · rw [take_renumber, h.take_eq, Option.map_some, modify_renumber_const]

end Queues

/-! ## Timers -/

/-- The timer of the same task with a larger id. -/
def Timer.renumber (offset : Nat) (timer : Timer) : Timer :=
  { timer with taskId := timer.taskId + offset }

theorem Timer.before_renumber (offset : Nat) (a b : Timer) :
    (a.renumber offset).before (b.renumber offset) = a.before b := by
  rw [Bool.eq_iff_iff, before_iff, before_iff]
  simp only [renumber, Nat.add_lt_add_iff_right]

namespace Timers

/-- The timers of the same tasks with larger ids. -/
def renumber (offset : Nat) (timers : Timers) : Timers :=
  ⟨timers.entries.map (Timer.renumber offset)⟩

theorem insertTimer_renumber (offset : Nat) (timer : Timer) (entries : List Timer) :
    insertTimer (timer.renumber offset) (entries.map (Timer.renumber offset)) =
      (insertTimer timer entries).map (Timer.renumber offset) := by
  induction entries with
  | nil => rfl
  | cons first rest ih =>
      simp only [List.map_cons, insertTimer, Timer.before_renumber, ih]
      split
      · rfl
      · split <;> rfl

variable (offset : Nat) (timers : Timers)

theorem schedule_renumber (timer : Timer) :
    (timers.renumber offset).schedule (timer.renumber offset) =
      (timers.schedule timer).renumber offset :=
  congrArg Timers.mk (insertTimer_renumber offset timer timers.entries)

theorem cancel_renumber (id : Nat) :
    (timers.renumber offset).cancel (id + offset) = (timers.cancel id).renumber offset := by
  simp only [cancel, renumber, List.eraseP_map]
  congr 3
  funext timer
  simp [Timer.renumber]

theorem popDue_renumber (now : Nat) :
    (timers.renumber offset).popDue now =
      ((timers.popDue now).1.map (Timer.renumber offset),
        (timers.popDue now).2.renumber offset) := by
  simp only [popDue, renumber, List.takeWhile_map, List.dropWhile_map]
  rfl

theorem nextDue?_renumber : (timers.renumber offset).nextDue? = timers.nextDue? := by
  simp only [nextDue?, renumber, List.head?_map, Option.map_map]
  rfl

end Timers

/-! ## The trace -/

/-- Two events that differ by a constant number in the ids of their tasks. -/
structure TraceEvent.Renumbered (offset : Nat) (event later : TraceEvent) : Prop where
  seq : later.seq = event.seq
  atMs : later.atMs = event.atMs
  taskId : later.taskId = event.taskId.map (· + offset)
  kind : later.kind = event.kind
  message : event.kind ≠ .warning → later.message = event.message
  /-- A refusal prints the id of the task that it is about. -/
  refusal : event.kind = .warning → ∃ error : EngineError,
    event.message = error.message ∧ later.message = (error.renumber offset).message

/-- Two logs whose events differ by a constant number in the ids of their
tasks. -/
structure TraceLog.Renumbered (offset : Nat) (log later : TraceLog) : Prop where
  capacity : later.capacity = log.capacity
  nextSeq : later.nextSeq = log.nextSeq
  events : List.Forall₂ (TraceEvent.Renumbered offset) log.events later.events

namespace TraceLog.Renumbered

variable {offset : Nat} {log later : TraceLog}

theorem record (h : log.Renumbered offset later) (now id : Nat) {kind : TraceKind}
    {message renumbered : String} (hmessage : kind ≠ .warning → renumbered = message)
    (hrefusal : kind = .warning → ∃ error : EngineError,
      message = error.message ∧ renumbered = (error.renumber offset).message) :
    (log.record now (some id) kind message).Renumbered offset
      (later.record now (some (id + offset)) kind renumbered) := by
  refine ⟨h.capacity, congrArg (· + 1) h.nextSeq, ?_⟩
  simp only [TraceLog.record, h.capacity, ← h.events.length_eq]
  refine List.rel_append (List.forall₂_drop _ h.events) (.cons ?_ .nil)
  exact ⟨h.nextSeq, rfl, rfl, rfl, hmessage, hrefusal⟩

theorem clear (h : log.Renumbered offset later) : log.clear.Renumbered offset later.clear :=
  ⟨h.capacity, rfl, .nil⟩

end TraceLog.Renumbered

namespace Engine

/-- Two engines that differ by a constant number in the ids of their tasks, and
in nothing else. -/
structure Renumbered (offset : Nat) (engine later : Engine) : Prop where
  queues : later.queues = engine.queues.renumber offset
  inFlight : later.inFlight = engine.inFlight.map (Task.renumber offset)
  finished : later.finished = engine.finished.map (Task.renumber offset)
  clock : later.clock = engine.clock
  timers : later.timers = engine.timers.renumber offset
  trace : engine.trace.Renumbered offset later.trace
  nextId : later.nextId = engine.nextId + offset

/-- The same outcome of an operation on a task with a larger id. -/
def renumberResult (offset : Nat) {α : Type} (renumber : α → α) :
    Except EngineError α → Except EngineError α
  | .ok value => .ok (renumber value)
  | .error error => .error (error.renumber offset)

theorem insertInFlight_renumber (offset : Nat) (task : Task) (tasks : List Task) :
    insertInFlight (task.renumber offset) (tasks.map (Task.renumber offset)) =
      (insertInFlight task tasks).map (Task.renumber offset) := by
  induction tasks with
  | nil => rfl
  | cons first rest ih =>
      simp only [List.map_cons, insertInFlight, Task.renumber_id, Nat.add_lt_add_iff_right, ih]
      split
      · rfl
      · split <;> rfl

namespace Renumbered

variable {offset : Nat} {engine later : Engine}

/-! ## Queries -/

theorem task?_eq (h : engine.Renumbered offset later) (id : Nat) :
    later.task? (id + offset) = (engine.task? id).map (Task.renumber offset) := by
  simp only [task?, h.queues, h.inFlight, h.finished, Queues.find?_renumber,
    Task.find?_renumber]
  cases engine.queues.find? id with
  | some task => rfl
  | none => cases engine.inFlight.find? (·.id = id) <;> rfl

theorem next?_eq (h : engine.Renumbered offset later) :
    later.next? = engine.next?.map (Task.renumber offset) := by
  simp only [next?, h.queues, Queues.head?, Queues.last?, Queues.get_renumber, List.head?_map,
    List.getLast?_map]
  cases (engine.queues.get .deferredQueue).head? with
  | some task => rfl
  | none => cases (engine.queues.get .callbackQueue).head? <;> rfl

theorem isIdle_eq (h : engine.Renumbered offset later) : later.isIdle = engine.isIdle := by
  simp only [isIdle, h.queues, h.inFlight, Queues.isEmpty_renumber, List.isEmpty_map]

theorem nextDue?_eq (h : engine.Renumbered offset later) :
    later.timers.nextDue? = engine.timers.nextDue? := by
  rw [h.timers, Timers.nextDue?_renumber]

theorem now_eq (h : engine.Renumbered offset later) : later.now = engine.now :=
  congrArg Clock.now h.clock

/-! ## The operations -/

theorem record (h : engine.Renumbered offset later) (id : Nat) (kind : TraceKind)
    (message : String) (hkind : kind ≠ .warning) :
    (engine.record id kind message).Renumbered offset
      (later.record (id + offset) kind message) := by
  refine ⟨h.queues, h.inFlight, h.finished, h.clock, h.timers, ?_, h.nextId⟩
  simp only [Engine.record, h.now_eq]
  exact h.trace.record _ _ (fun _ => rfl) fun hwarning => absurd hwarning hkind

theorem refusal_eq (h : engine.Renumbered offset later) (id : Nat) (requested : TaskStatus) :
    later.refusal (id + offset) requested = (engine.refusal id requested).renumber offset := by
  unfold refusal
  rw [h.task?_eq]
  cases engine.task? id <;> rfl

protected theorem refuse (h : engine.Renumbered offset later) {α : Type} (renumber : α → α)
    (id : Nat) (requested : TaskStatus) :
    (later.refuse (α := α) (id + offset) requested).1 =
        renumberResult offset renumber (engine.refuse id requested).1 ∧
      (engine.refuse (α := α) id requested).2.Renumbered offset
        (later.refuse (α := α) (id + offset) requested).2 := by
  unfold refuse
  rw [h.refusal_eq]
  refine ⟨rfl, h.queues, h.inFlight, h.finished, h.clock, h.timers, ?_, h.nextId⟩
  simp only [report, Engine.record, EngineError.taskId_renumber, h.now_eq]
  exact h.trace.record _ _ (fun hwarning => absurd rfl hwarning) fun _ => ⟨_, rfl, rfl⟩

protected theorem start (h : engine.Renumbered offset later) (id : Nat) :
    (later.start (id + offset)).1 =
        renumberResult offset (Task.renumber offset) (engine.start id).1 ∧
      (engine.start id).2.Renumbered offset (later.start (id + offset)).2 := by
  rcases engine.queues.absent_or_found id with habsent | ⟨queue, before, task, after, hfound⟩
  · have hlater := habsent.renumber offset
    rw [← h.queues] at hlater
    rw [start_absent habsent, start_absent hlater]
    exact h.refuse _ id .executing
  · have hlater := hfound.renumber offset
    rw [← h.queues] at hlater
    rw [start_found hfound, start_found hlater]
    by_cases hstatus : task.status = .pending
    · have htold := h.record id .started ("Started " ++ task.description) (by decide)
      rw [if_pos hstatus, if_pos (by exact hstatus)]
      refine ⟨rfl, ?_, ?_, htold.finished, htold.clock, htold.timers, htold.trace, htold.nextId⟩
      · rw [h.queues]
        exact Queues.modify_renumber_const offset _ queue before after
      · rw [h.inFlight]
        exact insertInFlight_renumber offset { task with status := .executing } engine.inFlight
    · rw [if_neg hstatus, if_neg (by exact hstatus)]
      exact h.refuse _ id .executing

theorem recordResult (h : engine.Renumbered offset later) (task : Task) :
    (engine.recordResult task).Renumbered offset
      (later.recordResult (task.renumber offset)) := by
  unfold Engine.recordResult
  dsimp only [Task.renumber]
  cases task.payload with
  | none => exact h
  | some payload => exact h.record task.id .result _ (by decide)

theorem find?_inFlight_eq (h : engine.Renumbered offset later) (id : Nat) :
    later.inFlight.find? (·.id = id + offset) =
      (engine.inFlight.find? (·.id = id)).map (Task.renumber offset) := by
  rw [h.inFlight, Task.find?_renumber]

theorem eraseP_inFlight_eq (h : engine.Renumbered offset later) (id : Nat) :
    later.inFlight.eraseP (·.id = id + offset) =
      (engine.inFlight.eraseP (·.id = id)).map (Task.renumber offset) := by
  rw [h.inFlight, Task.eraseP_renumber]

theorem finished_append (h : engine.Renumbered offset later) (task : Task) :
    later.finished ++ [task.renumber offset] =
      (engine.finished ++ [task]).map (Task.renumber offset) := by
  rw [h.finished, List.map_append]
  rfl

protected theorem complete (h : engine.Renumbered offset later) (id : Nat) :
    (later.complete (id + offset)).1 =
        renumberResult offset (Task.renumber offset) (engine.complete id).1 ∧
      (engine.complete id).2.Renumbered offset (later.complete (id + offset)).2 := by
  have hlater := h.find?_inFlight_eq id
  cases hfind : engine.inFlight.find? (·.id = id) with
  | none =>
      rw [hfind] at hlater
      rw [complete_missing hfind, complete_missing hlater]
      exact h.refuse _ id .completed
  | some task =>
      rw [hfind] at hlater
      rw [complete_executing hfind, complete_executing hlater]
      have htold := (h.record id .completed ("Completed " ++ task.description)
        (by decide)).recordResult { task with status := .completed }
      exact ⟨rfl, htold.queues, h.eraseP_inFlight_eq id,
        h.finished_append { task with status := .completed }, htold.clock, htold.timers,
        htold.trace, htold.nextId⟩

theorem fileFailure (h : engine.Renumbered offset later) (task : Task) (reason : String) :
    (later.fileFailure (task.renumber offset) reason).1 =
        renumberResult offset (Task.renumber offset) (engine.fileFailure task reason).1 ∧
      (engine.fileFailure task reason).2.Renumbered offset
        (later.fileFailure (task.renumber offset) reason).2 := by
  have htold := h.record task.id .error (task.description ++ ": " ++ reason) (by decide)
  exact ⟨rfl, htold.queues, htold.inFlight, h.finished_append { task with status := .error },
    htold.clock, htold.timers, htold.trace, htold.nextId⟩

theorem with_queued (h : engine.Renumbered offset later) (queues : Queues) (timers : Timers) :
    ({ engine with queues, timers } : Engine).Renumbered offset
      { later with queues := queues.renumber offset, timers := timers.renumber offset } :=
  ⟨rfl, h.inFlight, h.finished, h.clock, rfl, h.trace, h.nextId⟩

protected theorem fail (h : engine.Renumbered offset later) (id : Nat) (reason : String) :
    (later.fail (id + offset) reason).1 =
        renumberResult offset (Task.renumber offset) (engine.fail id reason).1 ∧
      (engine.fail id reason).2.Renumbered offset (later.fail (id + offset) reason).2 := by
  have hflight := h.find?_inFlight_eq id
  cases hfind : engine.inFlight.find? (·.id = id) with
  | some task =>
      rw [hfind] at hflight
      rw [fail_executing hfind, fail_executing hflight]
      refine fileFailure ?_ task reason
      exact ⟨h.queues, h.eraseP_inFlight_eq id, h.finished, h.clock, h.timers, h.trace, h.nextId⟩
  | none =>
      rw [hfind] at hflight
      rcases engine.queues.absent_or_found id with habsent | ⟨queue, before, task, after, hfound⟩
      · have hlater := habsent.renumber offset
        rw [← h.queues] at hlater
        rw [fail_absent hfind habsent, fail_absent hflight hlater]
        exact h.refuse _ id .error
      · have hlater := hfound.renumber offset
        rw [← h.queues] at hlater
        rw [fail_found hfind hfound, fail_found hflight hlater]
        have htimers : (if queue = .pendingAsync then later.timers.cancel (id + offset)
            else later.timers) =
              (if queue = .pendingAsync then engine.timers.cancel id
                else engine.timers).renumber offset := by
          split
          · rw [h.timers, Timers.cancel_renumber]
          · exact h.timers
        rw [h.queues, Queues.modify_renumber_const, htimers]
        exact (h.with_queued _ _).fileFailure task reason

protected theorem advanceTimer (h : engine.Renumbered offset later) (id : Nat) :
    (later.advanceTimer (id + offset)).1 = renumberResult offset (fun _ => ())
        (engine.advanceTimer id).1 ∧
      (engine.advanceTimer id).2.Renumbered offset (later.advanceTimer (id + offset)).2 := by
  obtain ⟨before, task, after, hfound⟩ | helsewhere :=
    engine.queues.found_or_elsewhere id .pendingAsync
  · have hlater := hfound.renumber offset
    rw [← h.queues] at hlater
    rw [advanceTimer_found hfound, advanceTimer_found hlater]
    have htold := h.record id .timerElapsed (arrival task.description .callbackQueue) (by decide)
    refine ⟨rfl, ?_, htold.inFlight, htold.finished, htold.clock, ?_, htold.trace, htold.nextId⟩
    · rw [h.queues, Queues.modify_renumber_const]
      exact Queues.push_renumber offset _ { task with status := .pending, queue := .callbackQueue }
    · rw [h.timers, Timers.cancel_renumber]
  · have hlater : later.queues.locate (id + offset) ≠ some .pendingAsync := by
      rwa [h.queues, Queues.locate_renumber]
    rw [advanceTimer_elsewhere helsewhere, advanceTimer_elsewhere hlater]
    exact h.refuse _ id .pending

protected theorem release (timers : List Timer) :
    ∀ {engine later : Engine}, engine.Renumbered offset later →
      (later.release (timers.map (Timer.renumber offset))).1 =
          (engine.release timers).1.map (· + offset) ∧
        (engine.release timers).2.Renumbered offset
          (later.release (timers.map (Timer.renumber offset))).2 := by
  induction timers with
  | nil => exact fun h => ⟨rfl, h⟩
  | cons timer rest ih =>
      intro engine later h
      obtain ⟨hmoved, hnext⟩ := h.advanceTimer timer.taskId
      obtain ⟨hids, hlast⟩ := ih hnext
      refine ⟨?_, hlast⟩
      simp only [List.map_cons, Engine.release, Timer.renumber] at hids ⊢
      rw [hmoved, hids]
      cases (engine.advanceTimer timer.taskId).1 <;> rfl

protected theorem releaseDue (h : engine.Renumbered offset later) (clock : Clock) :
    ({ later with clock } : Engine).releaseDue.1 =
        ({ engine with clock } : Engine).releaseDue.1.map (· + offset) ∧
      ({ engine with clock } : Engine).releaseDue.2.Renumbered offset
        ({ later with clock } : Engine).releaseDue.2 := by
  unfold Engine.releaseDue
  rw [h.timers]
  simp only [Timers.popDue_renumber]
  exact Renumbered.release _
    ⟨h.queues, h.inFlight, h.finished, rfl, rfl, h.trace, h.nextId⟩

protected theorem advanceClock (h : engine.Renumbered offset later) (ms : Nat) :
    (later.advanceClock ms).1 = (engine.advanceClock ms).1.map (· + offset) ∧
      (engine.advanceClock ms).2.Renumbered offset (later.advanceClock ms).2 := by
  unfold Engine.advanceClock
  rw [h.clock]
  exact h.releaseDue _

protected theorem advanceClockTo (h : engine.Renumbered offset later) (moment : Nat) :
    (later.advanceClockTo moment).1 = (engine.advanceClockTo moment).1.map (· + offset) ∧
      (engine.advanceClockTo moment).2.Renumbered offset (later.advanceClockTo moment).2 := by
  unfold Engine.advanceClockTo
  rw [h.clock]
  exact h.releaseDue _

theorem startTimer (h : engine.Renumbered offset later) (task : Task) :
    (engine.startTimer task).Renumbered offset (later.startTimer (task.renumber offset)) := by
  by_cases hqueue : task.queue = .pendingAsync
  · have hscheduled := Timers.schedule_renumber offset engine.timers
      ⟨EventLoop.later engine.now task.delayMs, engine.clock.nextTimer, task.id⟩
    simp only [Engine.startTimer, Task.renumber, if_pos hqueue, h.clock, h.timers, h.now_eq]
    exact ⟨h.queues, h.inFlight, h.finished, rfl, hscheduled, h.trace, h.nextId⟩
  · have hlater : (task.renumber offset).queue ≠ .pendingAsync := hqueue
    rw [Engine.startTimer, Engine.startTimer, if_neg hqueue, if_neg hlater]
    exact h

protected theorem submit (h : engine.Renumbered offset later) (step : Step) :
    (later.submit step).1 = (engine.submit step).1.renumber offset ∧
      (engine.submit step).2.Renumbered offset (later.submit step).2 := by
  have htask : Task.ofStep later.nextId step =
      (Task.ofStep engine.nextId step).renumber offset := by
    rw [h.nextId, Task.ofStep_add]
  have hcounted : ({ engine with nextId := engine.nextId + 1 } : Engine).Renumbered offset
      { later with nextId := later.nextId + 1 } := by
    refine ⟨h.queues, h.inFlight, h.finished, h.clock, h.timers, h.trace, ?_⟩
    dsimp only
    rw [h.nextId]
    omega
  refine ⟨htask, ?_⟩
  unfold Engine.submit
  dsimp only
  rw [htask]
  have htold := (hcounted.startTimer (Task.ofStep engine.nextId step)).record engine.nextId
    .admitted (arrival step.description step.targetQueue) (by decide)
  refine ⟨?_, htold.inFlight, htold.finished, htold.clock, htold.timers, htold.trace,
    htold.nextId⟩
  rw [← Queues.push_renumber]
  exact congrArg (Queues.push · _) htold.queues

/-- Nothing but the next id survives a reset. -/
protected theorem reset (h : engine.Renumbered offset later) :
    engine.reset.Renumbered offset later.reset :=
  ⟨rfl, rfl, rfl, rfl, rfl, h.trace.clear, h.nextId⟩

end Renumbered

end Engine

end EventLoop
