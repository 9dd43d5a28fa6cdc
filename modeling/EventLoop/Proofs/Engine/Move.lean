import EventLoop.Proofs.Engine.Notice
import EventLoop.Proofs.Engine.Refusal
import EventLoop.Proofs.Engine.Schedule

/-!
# How tasks move on

Whatever an operation does to the tasks that an engine has, it does by a
`Course` of moves: a timer elapses, a task starts, completes or fails, and each
`Move` has its notices.  That every operation, a submission and a reset apart,
takes such a course is shown once (`course_perform`).  What a course preserves
is then shown by cases of a move.

The first such fact is that tasks only move on: the places of an engine are in
four stages, and a task never comes back to a stage that it has left
(`Onward`).
-/

namespace EventLoop

/-- The events that end a task with success. -/
def Task.closing (task : Task) : List TraceKind :=
  .completed :: if task.payload.isSome then [.result] else []

/-- The ways in which a task can go from one place to another, each with the
status that the task gets and the events that tell it. -/
inductive Move (task : Task) : Place → Place → TaskStatus → List TraceKind → Prop
  | elapse : Move task (.queued .pendingAsync) (.queued .callbackQueue) .pending [.timerElapsed]
  | start {queue : Queue} (ready : queue ≠ .pendingAsync) :
      Move task (.queued queue) .inFlight .executing [.started]
  | complete : Move task .inFlight .finished .completed task.closing
  | fail {source : Place} (unfinished : source ≠ .finished) :
      Move task source .finished .error [.error]

namespace Place

/-- How far the tasks at a place have come. -/
def stage : Place → Nat
  | .queued .pendingAsync => 0
  | .queued _ => 1
  | .inFlight => 2
  | .finished => 3

theorem stage_lt_of_ne_finished {place : Place} (h : place ≠ .finished) : place.stage < 3 := by
  cases place with
  | queued queue => cases queue <;> simp [stage]
  | inFlight => simp [stage]
  | finished => exact absurd rfl h

theorem stage_queued {queue : Queue} (h : queue ≠ .pendingAsync) : (queued queue).stage = 1 := by
  cases queue <;> first | rfl | exact absurd rfl h

end Place

theorem Move.stage_lt {task : Task} {source target : Place} {status : TaskStatus}
    {kinds : List TraceKind} (h : Move task source target status kinds) :
    source.stage < target.stage := by
  cases h with
  | elapse => simp [Place.stage]
  | start ready =>
      rw [Place.stage_queued ready]
      simp [Place.stage]
  | complete => simp [Place.stage]
  | fail unfinished => exact Place.stage_lt_of_ne_finished unfinished

namespace Engine

/-- A course that the tasks of an engine take, and the notices that are given
on the way. -/
inductive Course : Engine → Engine → List Notice → Prop
  | stay {engine next : Engine} {notices : List Notice}
      (places : next.tasksAt = engine.tasksAt) (nextId : next.nextId = engine.nextId)
      (warnings : ∀ notice ∈ notices, notice.kind = .warning) : Course engine next notices
  | move {engine next : Engine} {source target : Place} {task moved : Task}
      {notices : List Notice} (passage : Passage engine next source target task moved)
      (move : Move task source target moved.status (notices.map Notice.kind))
      (about : ∀ notice ∈ notices, notice.taskId = task.id)
      (payload : moved.payload = task.payload) : Course engine next notices
  | trans {engine middle next : Engine} {ids : List Nat} {first second : List Notice}
      (start : Course engine middle first) (placed : middle.Placed ids)
      (rest : Course middle next second) : Course engine next (first ++ second)

variable {engine next : Engine} {ids : List Nat}

/-! ## The course of an operation -/

section Operations

variable {α : Type} {act : Engine → Except EngineError α × Engine}

/-- An action that comes to a refusal leaves all tasks where they are. -/
private theorem course_refused (id : Nat) (requested : TaskStatus)
    (h : ∀ trace, act { engine with trace } = { engine with trace }.refuse id requested) :
    ∃ notices, Tells act engine notices ∧ Course engine (act engine).2 notices := by
  have hrefuse : act engine = engine.refuse id requested := h engine.trace
  refine ⟨[⟨engine.now, (engine.refusal id requested).taskId, .warning,
    (engine.refusal id requested).message⟩], ⟨fun trace => ?_, fun notice hnotice => ?_⟩, ?_⟩
  · rw [h trace, hrefuse]
    rfl
  · rw [List.mem_singleton.1 hnotice, hrefuse]
    rfl
  · rw [hrefuse]
    exact .stay rfl rfl (by simp)

theorem Placed.course_start (h : engine.Placed ids) (id : Nat) :
    ∃ notices, Tells (·.start id) engine notices ∧
      Course engine (engine.start id).2 notices := by
  rcases engine.queues.absent_or_found id with habsent | ⟨queue, before, task, after, hfound⟩
  · exact course_refused id .executing fun trace => start_absent habsent
  · -- the task is found, whatever is on record
    have htraced : ∀ trace, ({ engine with trace } : Engine).queues.Found id queue before task after :=
      fun _ => hfound
    by_cases hstatus : task.status = .pending
    · have hready : queue ≠ .pendingAsync := by
        rintro rfl
        have hwaiting := (h.holds (.queued .pendingAsync) task hfound.mem).1.2
        rw [hstatus] at hwaiting
        contradiction
      have hfresh : ∀ other ∈ engine.inFlight, other.id ≠ task.id := by
        intro other hother heq
        have hplace := (h.eq_of_id_eq .inFlight (.queued queue) hother hfound.mem heq).2
        contradiction
      refine ⟨[⟨engine.now, id, .started, "Started " ++ task.description⟩],
        ⟨fun trace => ?_, ?_⟩, .move (start_passage hfound hfresh hstatus) ?_ ?_ rfl⟩
      · simp only [start_found hfound, start_found (htraced trace), if_pos hstatus]
        rfl
      · simp only [start_found hfound, if_pos hstatus, List.mem_singleton]
        rintro notice rfl
        rfl
      · exact .start hready
      · simp [hfound.id_eq]
    · refine course_refused id .executing fun trace => ?_
      rw [start_found (htraced trace), if_neg hstatus]

/-- What is told of the result of a task. -/
private def resultNotices (now : Nat) (task : Task) : List Notice :=
  match task.payload with
  | none => []
  | some payload =>
    [⟨now, task.id, .result, if task.kind = .console then payload else "Result: " ++ payload⟩]

private theorem recordResult_eq (engine : Engine) (task : Task) :
    engine.recordResult task =
      { engine with trace := engine.trace.tellAll (resultNotices engine.now task) } := by
  cases hpayload : task.payload <;> simp only [recordResult, resultNotices, hpayload] <;> rfl

private theorem resultNotices_about {now : Nat} {task : Task} {notice : Notice}
    (h : notice ∈ resultNotices now task) : notice.atMs = now ∧ notice.taskId = task.id := by
  unfold resultNotices at h
  split at h
  · contradiction
  · rw [List.mem_singleton.1 h]
    exact ⟨rfl, rfl⟩

theorem course_complete (engine : Engine) (id : Nat) :
    ∃ notices, Tells (·.complete id) engine notices ∧
      Course engine (engine.complete id).2 notices := by
  cases hfind : engine.inFlight.find? (·.id = id) with
  | none =>
      exact course_refused id .completed fun trace => complete_missing hfind
  | some task =>
      have hid : task.id = id := by simpa using List.find?_some hfind
      refine ⟨⟨engine.now, id, .completed, "Completed " ++ task.description⟩ ::
          resultNotices engine.now task,
        ⟨fun trace => ?_, ?_⟩, .move (complete_passage hfind) ?_ ?_ rfl⟩
      · have htraced : ({ engine with trace } : Engine).inFlight.find? (·.id = id) = some task :=
          hfind
        simp only [complete_executing hfind, complete_executing htraced, recordResult_eq]
        rfl
      · simp only [complete_executing hfind, recordResult_eq]
        intro notice hnotice
        rcases List.mem_cons.1 hnotice with rfl | hresult
        · rfl
        · exact (resultNotices_about hresult).1
      · have hclosing : (.completed :: (resultNotices engine.now task).map Notice.kind) =
            task.closing := by
          cases hpayload : task.payload <;> simp [resultNotices, Task.closing, hpayload]
        rw [List.map_cons, hclosing]
        exact .complete
      · intro notice hnotice
        rcases List.mem_cons.1 hnotice with rfl | hresult
        · exact hid.symm
        · exact (resultNotices_about hresult).2

theorem course_fail (engine : Engine) (id : Nat) (reason : String) :
    ∃ notices, Tells (·.fail id reason) engine notices ∧
      Course engine (engine.fail id reason).2 notices := by
  cases hfind : engine.inFlight.find? (·.id = id) with
  | some task =>
      have htraced : ∀ trace, ({ engine with trace } : Engine).inFlight.find? (·.id = id) =
          some task := fun _ => hfind
      refine ⟨[⟨engine.now, task.id, .error, task.description ++ ": " ++ reason⟩],
        ⟨fun trace => ?_, ?_⟩, .move (fail_executing_passage hfind reason) ?_ ?_ rfl⟩
      · simp only [fail_executing hfind, fail_executing (htraced trace)]
        rfl
      · simp only [fail_executing hfind, List.mem_singleton]
        rintro notice rfl
        rfl
      · exact .fail (by simp)
      · simp
  | none =>
      have hnone : ∀ trace, ({ engine with trace } : Engine).inFlight.find? (·.id = id) = none :=
        fun _ => hfind
      rcases engine.queues.absent_or_found id with habsent | ⟨queue, before, task, after, hfound⟩
      · exact course_refused id .error fun trace => fail_absent (hnone trace) habsent reason
      · have htraced : ∀ trace,
            ({ engine with trace } : Engine).queues.Found id queue before task after :=
          fun _ => hfound
        refine ⟨[⟨engine.now, task.id, .error, task.description ++ ": " ++ reason⟩],
          ⟨fun trace => ?_, ?_⟩, .move (fail_queued_passage hfind hfound reason) ?_ ?_ rfl⟩
        · simp only [fail_found hfind hfound, fail_found (hnone trace) (htraced trace)]
          rfl
        · simp only [fail_found hfind hfound, List.mem_singleton]
          rintro notice rfl
          rfl
        · exact .fail (by simp)
        · simp

theorem course_advanceTimer (engine : Engine) (id : Nat) :
    ∃ notices, Tells (·.advanceTimer id) engine notices ∧
      Course engine (engine.advanceTimer id).2 notices := by
  obtain ⟨before, task, after, hfound⟩ | helsewhere :=
    engine.queues.found_or_elsewhere id .pendingAsync
  · have htraced : ∀ trace,
        ({ engine with trace } : Engine).queues.Found id .pendingAsync before task after :=
      fun _ => hfound
    refine ⟨[⟨engine.now, id, .timerElapsed, arrival task.description .callbackQueue⟩],
      ⟨fun trace => ?_, ?_⟩, .move (advanceTimer_passage hfound) .elapse ?_ rfl⟩
    · simp only [advanceTimer_found hfound, advanceTimer_found (htraced trace)]
      rfl
    · simp only [advanceTimer_found hfound, List.mem_singleton]
      rintro notice rfl
      rfl
    · simp [hfound.id_eq]
  · exact course_refused id .pending fun trace => advanceTimer_elsewhere helsewhere

/-- The timers that are released elapse one after the other. -/
theorem course_release (timers : List Timer) :
    ∀ engine : Engine, engine.Placed ids → ∃ notices, Tells (·.release timers) engine notices ∧
      Course engine (engine.release timers).2 notices := by
  induction timers with
  | nil => exact fun engine _ => ⟨[], ⟨fun _ => rfl, by simp⟩, .stay rfl rfl (by simp)⟩
  | cons timer rest ih =>
      intro engine hplaced
      have hmiddle := hplaced.advanceTimer timer.taskId
      obtain ⟨first, htells, hcourse⟩ := course_advanceTimer engine timer.taskId
      obtain ⟨second, hrest, hlast⟩ := ih _ hmiddle
      refine ⟨first ++ second, ⟨fun trace => ?_, fun notice hnotice => ?_⟩,
        hcourse.trans hmiddle hlast⟩
      · simp only [release]
        rw [htells.records trace, hrest.records (trace.tellAll first), TraceLog.tellAll_append]
      · rcases List.mem_append.1 hnotice with hold | hnew
        · rw [htells.at_now notice hold]
          exact (congrArg Clock.now (clock_release rest _)).symm
        · exact hrest.at_now notice hnew

/-- The clock moves, and what is due by then elapses. -/
theorem Placed.course_releaseDue (h : engine.Placed ids) (change : Clock → Clock) :
    let act := fun state : Engine => { state with clock := change state.clock }.releaseDue
    ∃ notices, Tells act engine notices ∧ Course engine (act engine).2 notices := by
  let clock := change engine.clock
  let moved : Engine := { engine with clock, timers := (engine.timers.popDue clock.now).2 }
  have hmoved : moved.Placed ids := h.congr rfl rfl
  obtain ⟨notices, htells, hcourse⟩ :=
    course_release (engine.timers.popDue clock.now).1 moved hmoved
  have hstill : Course engine moved [] := .stay rfl rfl (by simp)
  exact ⟨notices, ⟨htells.records, htells.at_now⟩, hstill.trans hmoved hcourse⟩

/-- **What an operation does to the tasks that are there** is a course of
moves, and what it tells are the notices of that course. -/
theorem Placed.course_perform (h : engine.Placed ids) {operation : Operation}
    (hsubmit : ∀ step, operation ≠ .submit step) (hreset : operation ≠ .reset) :
    ∃ notices, Tells (·.perform operation) engine notices ∧
      Course engine (engine.perform operation).2 notices := by
  cases operation with
  | submit step => exact absurd rfl (hsubmit step)
  | reset => exact absurd rfl hreset
  | start id =>
      obtain ⟨notices, htells, hcourse⟩ := h.course_start id
      exact ⟨notices, htells.map Answer.moved, hcourse⟩
  | complete id =>
      obtain ⟨notices, htells, hcourse⟩ := course_complete engine id
      exact ⟨notices, htells.map Answer.moved, hcourse⟩
  | fail id reason =>
      obtain ⟨notices, htells, hcourse⟩ := course_fail engine id reason
      exact ⟨notices, htells.map Answer.moved, hcourse⟩
  | advanceTimer id =>
      obtain ⟨notices, htells, hcourse⟩ := course_advanceTimer engine id
      exact ⟨notices, htells.map Answer.elapsed, hcourse⟩
  | advanceClock ms =>
      obtain ⟨notices, htells, hcourse⟩ := h.course_releaseDue (·.advanceBy ms)
      exact ⟨notices, htells.map Answer.released, hcourse⟩
  | advanceClockTo moment =>
      obtain ⟨notices, htells, hcourse⟩ := h.course_releaseDue (·.advanceTo moment)
      exact ⟨notices, htells.map Answer.released, hcourse⟩

end Operations

/-! ## Tasks only move on -/

/-- What is at a place of the one engine was at the same place of the other, or
at a place of an earlier stage, unless it is new. -/
structure Onward (engine next : Engine) : Prop where
  nextId_le : engine.nextId ≤ next.nextId
  whence : ∀ place, ∀ id ∈ next.idsAt place, id < engine.nextId →
    ∃ source, id ∈ engine.idsAt source ∧ (source = place ∨ source.stage < place.stage)

namespace Onward

theorem of_eq (hplaces : next.tasksAt = engine.tasksAt) (hnext : next.nextId = engine.nextId) :
    engine.Onward next := by
  refine ⟨hnext.ge, fun place id hid _ => ⟨place, ?_, .inl rfl⟩⟩
  rwa [idsAt, ← hplaces]

theorem trans {last : Engine} (h : engine.Onward next) (hlast : next.Onward last) :
    engine.Onward last := by
  refine ⟨h.nextId_le.trans hlast.nextId_le, fun place id hid hlt => ?_⟩
  obtain ⟨middle, hmiddle, hle⟩ := hlast.whence place id hid (hlt.trans_le h.nextId_le)
  obtain ⟨source, hsource, hfirst⟩ := h.whence middle id hmiddle hlt
  refine ⟨source, hsource, ?_⟩
  rcases hfirst with rfl | hfirst
  · exact hle
  · rcases hle with rfl | hle
    · exact .inr hfirst
    · exact .inr (hfirst.trans hle)

theorem of_passage {source target : Place} {task moved : Task}
    (h : Passage engine next source target task moved) (hstage : source.stage < target.stage) :
    engine.Onward next := by
  refine ⟨h.nextId_eq.ge, fun place id hid _ => ?_⟩
  obtain ⟨other, hother, rfl⟩ := mem_idsAt.1 hid
  rcases h.mem_or_eq hother with hmem | ⟨rfl, rfl⟩
  · exact ⟨place, mem_idsAt.2 ⟨other, hmem, rfl⟩, .inl rfl⟩
  · have htask : task ∈ engine.tasksAt source := h.leaves.mem_iff.2 List.mem_cons_self
    exact ⟨source, mem_idsAt.2 ⟨task, htask, h.id_eq.symm⟩, .inr hstage⟩

theorem of_course {notices : List Notice} (h : Course engine next notices) :
    engine.Onward next := by
  induction h with
  | stay places nextId _ => exact of_eq places nextId
  | move passage move _ _ => exact of_passage passage move.stage_lt
  | trans _ _ _ ihstart ihrest => exact ihstart.trans ihrest

protected theorem submit (engine : Engine) (step : Step) :
    engine.Onward (engine.submit step).2 := by
  refine ⟨by rw [submit_nextId]; exact Nat.le_succ _, fun place id hid hlt => ?_⟩
  obtain ⟨task, htask, rfl⟩ := mem_idsAt.1 hid
  rcases (mem_tasksAt_submit engine step).1 htask with hold | ⟨-, rfl⟩
  · exact ⟨place, mem_idsAt.2 ⟨task, hold, rfl⟩, .inl rfl⟩
  · -- the new id is not below the next one
    exact absurd hlt (Nat.lt_irrefl _)

protected theorem reset (engine : Engine) : engine.Onward engine.reset := by
  refine ⟨le_rfl, fun place id hid _ => ?_⟩
  rw [idsAt, tasksAt_reset] at hid
  contradiction

/-- Every operation moves tasks on. -/
protected theorem perform (hplaced : engine.Placed ids) (operation : Operation) :
    engine.Onward (engine.perform operation).2 := by
  by_cases hsubmit : ∃ step, operation = .submit step
  · obtain ⟨step, rfl⟩ := hsubmit
    exact .submit engine step
  · by_cases hreset : operation = .reset
    · subst hreset
      exact .reset engine
    · push Not at hsubmit
      obtain ⟨notices, -, hcourse⟩ := hplaced.course_perform hsubmit hreset
      exact of_course hcourse

end Onward

/-- An id has been handed out, and its task has come to a stage or is
forgotten. -/
structure Past (engine : Engine) (id : Nat) (stage : Nat) : Prop where
  lt_nextId : id < engine.nextId
  stage_le : ∀ place, id ∈ engine.idsAt place → stage ≤ place.stage

/-- A task that has come to a stage is never again at an earlier one. -/
theorem Past.onward {id stage : Nat} (h : engine.Past id stage) (honward : engine.Onward next) :
    next.Past id stage := by
  refine ⟨h.lt_nextId.trans_le honward.nextId_le, fun place hid => ?_⟩
  obtain ⟨source, hsource, hle⟩ := honward.whence place id hid h.lt_nextId
  have hstage := h.stage_le source hsource
  rcases hle with rfl | hlt
  · exact hstage
  · omega

theorem Past.of_le {id stage earlier : Nat} (h : engine.Past id stage) (hle : earlier ≤ stage) :
    engine.Past id earlier :=
  ⟨h.lt_nextId, fun place hid => hle.trans (h.stage_le place hid)⟩

/-- A task has come to the stage of the place where it is. -/
theorem Placed.past (h : engine.Placed ids) {id : Nat} {place : Place}
    (hid : id ∈ engine.idsAt place) : engine.Past id place.stage := by
  obtain ⟨task, htask, rfl⟩ := mem_idsAt.1 hid
  refine ⟨h.lt_nextId _ (h.ids_perm.mem_iff.1 ?_), fun other hother => ?_⟩
  · exact List.mem_map_of_mem (mem_tasks.2 ⟨place, htask⟩)
  · rw [h.place_eq hid hother]

end Engine

end EventLoop
