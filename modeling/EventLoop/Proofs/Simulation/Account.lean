import EventLoop.Proofs.Engine.Timetable
import EventLoop.Proofs.Simulation.Ledger

/-!
# The ledger of an engine

A ledger `Describes` an engine if each container holds the tasks of one group
of submissions, in the same order, and the schedule has their due times.  Every
call that a simulation makes on its engine is then an entry in the ledger, and
it succeeds: the executing task is there to be completed or failed, every due
timer finds its task, and the task that is selected can be started.
-/

namespace EventLoop

/-- The task of a submission when it is ready to run. -/
def Submission.ready (submission : Submission) : Task :=
  if submission.isTimed then
    { submission.task with status := .pending, queue := .callbackQueue }
  else submission.task

/-- The task of a submission while it runs. -/
def Submission.running (submission : Submission) : Task :=
  { submission.ready with status := .executing }

theorem Submission.ready_of_not_timed {submission : Submission} (h : submission.isTimed = false) :
    submission.ready = submission.task := by
  simp [ready, h]

@[simp] theorem Submission.ready_id (submission : Submission) :
    submission.ready.id = submission.task.id := by
  unfold ready
  split <;> rfl

@[simp] theorem Submission.running_id (submission : Submission) :
    submission.running.id = submission.task.id :=
  submission.ready_id

/-! ## Traces without warnings -/

/-- No refusal is on record. -/
def Engine.Quiet (engine : Engine) : Prop :=
  ∀ event ∈ engine.trace.events, event.kind ≠ .warning

theorem Engine.Quiet.record {engine : Engine} (h : engine.Quiet) (id : Nat) (kind : TraceKind)
    (hkind : kind ≠ .warning) (message : String) : (engine.record id kind message).Quiet := by
  intro event hevent
  rcases List.mem_append.1 hevent with hold | hnew
  · exact h event (List.mem_of_mem_drop hold)
  · rw [List.mem_singleton.1 hnew]
    exact hkind

namespace Ledger

/-- The containers, the schedule and the executing and finished tasks of an
engine are those of a ledger. -/
structure Describes (ledger : Ledger) (engine : Engine) : Prop where
  callStack_eq : engine.queues.callStack = ledger.stacked.map (·.ready)
  deferredQueue_eq : engine.queues.deferredQueue = ledger.deferred.map (·.ready)
  callbackQueue_eq : engine.queues.callbackQueue = ledger.called.map (·.ready)
  pendingAsync_perm : engine.queues.pendingAsync.Perm (ledger.waiting.map (·.task))
  timers_eq : engine.timers.entries.map (fun timer => (timer.dueAt, timer.taskId)) =
    ledger.waiting.map fun submission => (submission.dueAt, submission.task.id)
  inFlight_eq : engine.inFlight = ledger.current.toList.map (·.running)
  finished_ids : engine.finished.map Task.id = ledger.ended.map (·.task.id)

variable {ledger : Ledger} {engine : Engine} {ids : List Nat}

namespace Describes

/-! ## Submission -/

/-- The timers that are due by a moment are those of the submissions that
are. -/
theorem takeWhile_timers (h : ledger.Describes engine) (moment : Nat) :
    (engine.timers.entries.takeWhile (·.dueAt ≤ moment)).map
        (fun timer => (timer.dueAt, timer.taskId)) =
      (ledger.waiting.takeWhile (·.dueAt ≤ moment)).map
        fun submission => (submission.dueAt, submission.task.id) := by
  have hkeys := congrArg (List.takeWhile fun key : Nat × Nat => key.1 ≤ moment) h.timers_eq
  rw [List.takeWhile_map, List.takeWhile_map] at hkeys
  exact hkeys

theorem dropWhile_timers (h : ledger.Describes engine) (moment : Nat) :
    (engine.timers.entries.dropWhile (·.dueAt ≤ moment)).map
        (fun timer => (timer.dueAt, timer.taskId)) =
      (ledger.waiting.dropWhile (·.dueAt ≤ moment)).map
        fun submission => (submission.dueAt, submission.task.id) := by
  have hkeys := congrArg (List.dropWhile fun key : Nat × Nat => key.1 ≤ moment) h.timers_eq
  rw [List.dropWhile_map, List.dropWhile_map] at hkeys
  exact hkeys

protected theorem submit (h : ledger.Describes engine)
    (hscheduled : engine.Scheduled engine.timers.entries) (step : Step) :
    (ledger.submit ⟨(engine.submit step).1, engine.now⟩).Describes (engine.submit step).2 := by
  have hqueue : (engine.submit step).1.queue = step.targetQueue := rfl
  have hget : ∀ queue, (engine.submit step).2.queues.get queue =
      if queue = step.targetQueue then engine.queues.get queue ++ [(engine.submit step).1]
      else engine.queues.get queue := fun queue => by
    rw [Engine.submit_queues, Queues.get_push]
    rfl
  have hstack := hget .callStack
  have hpending := hget .pendingAsync
  have hcallback := hget .callbackQueue
  have hdeferred := hget .deferredQueue
  have htimers := Engine.submit_timers engine step
  have hflight := (Engine.submit_inFlight engine step).trans h.inFlight_eq
  have hfinished : (engine.submit step).2.finished.map Task.id = ledger.ended.map (·.task.id) := by
    rw [Engine.submit_finished]
    exact h.finished_ids
  simp only [Queues.get] at hstack hpending hcallback hdeferred
  have hready : step.targetQueue ≠ .pendingAsync →
      Submission.ready ⟨(engine.submit step).1, engine.now⟩ = (engine.submit step).1 :=
    fun hne => Submission.ready_of_not_timed (by simpa [Submission.isTimed, hqueue] using hne)
  simp only [Ledger.submit, hqueue]
  cases htarget : step.targetQueue with
  | callStack =>
      simp only [htarget, reduceCtorEq, if_true, if_false]
        at hstack hpending hcallback hdeferred htimers
      exact ⟨by simp [hstack, h.callStack_eq, hready, htarget], hdeferred ▸ h.deferredQueue_eq,
        hcallback ▸ h.callbackQueue_eq, hpending ▸ h.pendingAsync_perm, htimers ▸ h.timers_eq,
        hflight, hfinished⟩
  | callbackQueue =>
      simp only [htarget, reduceCtorEq, if_true, if_false]
        at hstack hpending hcallback hdeferred htimers
      exact ⟨hstack ▸ h.callStack_eq, hdeferred ▸ h.deferredQueue_eq,
        by simp [hcallback, h.callbackQueue_eq, hready, htarget], hpending ▸ h.pendingAsync_perm,
        htimers ▸ h.timers_eq, hflight, hfinished⟩
  | deferredQueue =>
      simp only [htarget, reduceCtorEq, if_true, if_false]
        at hstack hpending hcallback hdeferred htimers
      exact ⟨hstack ▸ h.callStack_eq, by simp [hdeferred, h.deferredQueue_eq, hready, htarget],
        hcallback ▸ h.callbackQueue_eq, hpending ▸ h.pendingAsync_perm, htimers ▸ h.timers_eq,
        hflight, hfinished⟩
  | pendingAsync =>
      simp only [htarget, reduceCtorEq, if_true, if_false]
        at hstack hpending hcallback hdeferred htimers
      refine ⟨hstack ▸ h.callStack_eq, hdeferred ▸ h.deferredQueue_eq,
        hcallback ▸ h.callbackQueue_eq, ?_, ?_, hflight, hfinished⟩
      · rw [hpending]
        refine (List.perm_append_singleton _ _).trans ((h.pendingAsync_perm.cons _).trans ?_)
        exact ((perm_insert _ ⟨(engine.submit step).1, engine.now⟩ ledger.waiting).map
          Submission.task).symm
      · rw [htimers, Timers.schedule, Timers.insertTimer_eq _ hscheduled.seq_lt, List.map_append,
          List.map_append, List.map_cons, List.map_cons, h.takeWhile_timers, h.dropWhile_timers]
        rfl

end Describes

/-! ## Release -/

/-- What is different after the tasks of some waiting submissions have gone to
the callback queue, so that only the rest is still waiting. -/
structure Calls (engine next : Engine) (first rest : List Submission) : Prop where
  callbackQueue_eq :
    next.queues.callbackQueue = engine.queues.callbackQueue ++ first.map (·.ready)
  pendingAsync_perm : next.queues.pendingAsync.Perm (rest.map (·.task))
  callStack_eq : next.queues.callStack = engine.queues.callStack
  deferredQueue_eq : next.queues.deferredQueue = engine.queues.deferredQueue
  inFlight_eq : next.inFlight = engine.inFlight
  finished_eq : next.finished = engine.finished
  timers_eq : next.timers = engine.timers

theorem Calls.trans {next last : Engine} {first second rest : List Submission}
    (h : Calls engine next first (second ++ rest)) (hlast : Calls next last second rest) :
    Calls engine last (first ++ second) rest := by
  refine ⟨?_, hlast.pendingAsync_perm, hlast.callStack_eq.trans h.callStack_eq,
    hlast.deferredQueue_eq.trans h.deferredQueue_eq, hlast.inFlight_eq.trans h.inFlight_eq,
    hlast.finished_eq.trans h.finished_eq, hlast.timers_eq.trans h.timers_eq⟩
  rw [hlast.callbackQueue_eq, h.callbackQueue_eq, List.map_append, List.append_assoc]

/-- One timer that is released calls its task. -/
theorem calls_advanceTimer {timer : Timer} {timers : List Timer} {submission : Submission}
    {rest : List Submission} (hplaced : engine.Placed ids)
    (hscheduled : engine.Scheduled (timer :: timers))
    (hentries : engine.timers.entries.Sublist timers)
    (hpending : engine.queues.pendingAsync.Perm ((submission :: rest).map (·.task)))
    (hid : timer.taskId = submission.task.id) (htimed : submission.isTimed = true) :
    Calls engine (engine.advanceTimer timer.taskId).2 [submission] rest ∧
      (engine.advanceTimer timer.taskId).2.Scheduled timers ∧
      (engine.Quiet → (engine.advanceTimer timer.taskId).2.Quiet) := by
  obtain ⟨before, task, after, hfound, hadvance⟩ :=
    hscheduled.advanceTimer_popped hplaced hentries
  have hmem : submission.task ∈ engine.queues.pendingAsync := hpending.mem_iff.2 (by simp)
  obtain ⟨rfl, -⟩ := hplaced.eq_of_id_eq (.queued .pendingAsync) (.queued .pendingAsync)
    hfound.mem hmem (hfound.id_eq.trans hid)
  have hready : submission.ready =
      { submission.task with status := .pending, queue := .callbackQueue } := by
    simp [Submission.ready, htimed]
  have hsplit : engine.queues.pendingAsync = before ++ submission.task :: after := hfound.get_eq
  have hleft : (before ++ after).Perm (rest.map (·.task)) := by
    rw [hsplit] at hpending
    exact (List.perm_cons _).1 (List.perm_middle.symm.trans hpending)
  have hremove : (engine.advanceTimer timer.taskId).2.Scheduled ([] ++ timers) :=
    hscheduled.remove rfl hsplit hid (by rw [hadvance]; rfl) (by rw [hadvance]; rfl)
  rw [hadvance] at hremove ⊢
  refine ⟨⟨?_, hleft, rfl, rfl, rfl, rfl, rfl⟩, hremove, fun hquiet => ?_⟩
  · rw [List.map_singleton, hready]
    rfl
  · exact hquiet.record timer.taskId .timerElapsed (by decide) _

/-- Timers that are released call their tasks, in their order. -/
theorem calls_release (popped : List Timer) :
    ∀ (engine : Engine) (first rest : List Submission), engine.Placed ids →
      engine.Scheduled (popped ++ engine.timers.entries) →
      engine.queues.pendingAsync.Perm ((first ++ rest).map (·.task)) →
      popped.map Timer.taskId = first.map (·.task.id) →
      (∀ submission ∈ first, submission.isTimed = true) →
      Calls engine (engine.release popped).2 first rest ∧
        (engine.Quiet → (engine.release popped).2.Quiet) := by
  induction popped with
  | nil =>
      intro engine first rest _ _ hpending hids _
      have hfirst : first = [] := by simpa using hids.symm
      subst hfirst
      exact ⟨⟨(List.append_nil _).symm, hpending, rfl, rfl, rfl, rfl, rfl⟩, fun hquiet => hquiet⟩
  | cons timer popped ih =>
      intro engine first rest hplaced hscheduled hpending hids htimed
      cases first with
      | nil => simp at hids
      | cons submission first =>
          obtain ⟨hid, hids⟩ := List.cons.inj hids
          obtain ⟨hcalls, hnext, hquiet⟩ := calls_advanceTimer hplaced hscheduled
            (List.sublist_append_right popped _) hpending hid (htimed submission List.mem_cons_self)
          have hrest := ih (engine.advanceTimer timer.taskId).2 first rest
            (hplaced.advanceTimer timer.taskId) (hcalls.timers_eq.symm ▸ hnext)
            hcalls.pendingAsync_perm hids fun other hother =>
              htimed other (List.mem_cons_of_mem _ hother)
          obtain ⟨hcalled, hlastQuiet⟩ := hrest
          exact ⟨hcalls.trans hcalled, hlastQuiet ∘ hquiet⟩

/-! ## The account of an engine -/

/-- A ledger accounts for an engine whose tasks were submitted in the given
order: it describes the engine, and the ledger and the engine are in order. -/
structure Accounts (ledger : Ledger) (submissions : List Submission) (engine : Engine) :
    Prop where
  describes : ledger.Describes engine
  ordered : ledger.Ordered submissions engine.now
  placed : engine.Placed (submissions.map (·.task.id))
  scheduled : engine.Scheduled engine.timers.entries
  quiet : engine.Quiet
  now_le : engine.now ≤ horizon

namespace Accounts

variable {submissions : List Submission}

/-- An engine without tasks is accounted for by the empty ledger. -/
theorem nil (hplaced : engine.Placed []) (htimers : engine.timers = .empty)
    (hfinished : engine.finished = []) (htrace : engine.trace.events = [])
    (hnow : engine.now ≤ horizon) : Accounts {} [] engine := by
  have hnone : ∀ place, engine.tasksAt place = [] := fun place => by
    refine List.eq_nil_iff_forall_not_mem.2 fun task htask => ?_
    have hmem : task.id ∈ engine.tasks.map Task.id :=
      List.mem_map_of_mem (Engine.mem_tasks.2 ⟨place, htask⟩)
    rw [hplaced.ids_perm.eq_nil] at hmem
    exact absurd hmem List.not_mem_nil
  have hpending : engine.queues.pendingAsync = [] := hnone (.queued .pendingAsync)
  refine ⟨⟨hnone (.queued .callStack), hnone (.queued .deferredQueue),
    hnone (.queued .callbackQueue), by simp [hpending], by simp [htimers, Timers.empty],
    hnone .inFlight, by simp [hfinished]⟩, .nil _, hplaced, ?_, by simp [Engine.Quiet, htrace],
    hnow⟩
  rw [htimers]
  exact ⟨by simp [hpending, Timers.empty], .nil, by simp [Timers.empty], by simp [Timers.empty]⟩

protected theorem submit (h : ledger.Accounts submissions engine) {step : Step}
    (hstacked : ledger.stacked = []) (hqueue : step.targetQueue ≠ .callbackQueue) :
    (ledger.submit ⟨(engine.submit step).1, engine.now⟩).Accounts
      (submissions ++ [⟨(engine.submit step).1, engine.now⟩]) (engine.submit step).2 := by
  have hnow := Engine.submit_now engine step
  refine ⟨h.describes.submit h.scheduled step, ?_, ?_, h.scheduled.submit h.placed step, ?_,
    hnow.symm ▸ h.now_le⟩
  · rw [hnow]
    refine h.ordered.submit hstacked (fun other hother => ?_) ?_ hqueue
    · exact h.placed.lt_nextId _ (List.mem_map_of_mem hother)
    · exact Nat.le_min.2 ⟨h.now_le, Nat.le_add_right _ _⟩
  · rw [List.map_append]
    exact h.placed.submit step
  · have hquiet : ({ engine with nextId := engine.nextId + 1 } : Engine).Quiet := h.quiet
    have hstarted : (({ engine with nextId := engine.nextId + 1 } : Engine).startTimer
        (Task.ofStep engine.nextId step)).Quiet := by
      unfold Engine.startTimer
      split
      · exact hquiet
      · exact hquiet
    exact hstarted.record engine.nextId .admitted (by decide) _

/-- When time moves on, the timers that are then due are released. -/
protected theorem releaseDue (h : ledger.Accounts submissions engine) (clock : Clock)
    (hseq : clock.nextTimer = engine.clock.nextTimer) (hle : engine.now ≤ clock.now)
    (hnow : clock.now ≤ horizon) :
    (ledger.release clock.now).Accounts submissions
      ({ engine with clock } : Engine).releaseDue.2 := by
  -- the engine between the two halves of the call: the due timers have left the
  -- schedule, and their tasks still wait
  let moved : Engine := { engine with clock, timers := (engine.timers.popDue clock.now).2 }
  have hmoved : moved.Placed (submissions.map (·.task.id)) := h.placed.congr rfl rfl
  have htimers : moved.Scheduled ((engine.timers.popDue clock.now).1 ++ moved.timers.entries) := by
    rw [Timers.popDue_append]
    exact h.scheduled.congr rfl hseq
  have hpending : moved.queues.pendingAsync.Perm
      ((ledger.waiting.takeWhile (·.dueAt ≤ clock.now) ++
        ledger.waiting.dropWhile (·.dueAt ≤ clock.now)).map (·.task)) := by
    rw [List.takeWhile_append_dropWhile]
    exact h.describes.pendingAsync_perm
  have hids : (engine.timers.popDue clock.now).1.map Timer.taskId =
      (ledger.waiting.takeWhile (·.dueAt ≤ clock.now)).map (·.task.id) := by
    have hkeys := congrArg (List.map Prod.snd) (h.describes.takeWhile_timers clock.now)
    rw [List.map_map, List.map_map] at hkeys
    exact hkeys
  have htimed : ∀ submission ∈ ledger.waiting.takeWhile (·.dueAt ≤ clock.now),
      submission.isTimed = true := fun submission hmem =>
    h.ordered.isTimed_eq_true
      (List.mem_append_right _ ((List.takeWhile_sublist _).subset hmem))
  obtain ⟨hcalls, hquiet⟩ := calls_release _ moved _ _ hmoved htimers hpending hids htimed
  obtain ⟨hscheduled, -⟩ := h.scheduled.releaseDue h.placed clock hseq
  have htime : ({ engine with clock } : Engine).releaseDue.2.now = clock.now :=
    congrArg Clock.now (Engine.clock_release _ _)
  refine ⟨?_, ?_, (h.placed.with_clock clock).releaseDue, ?_,
    hquiet h.quiet, htime.symm ▸ hnow⟩
  · refine ⟨hcalls.callStack_eq.trans h.describes.callStack_eq,
      hcalls.deferredQueue_eq.trans h.describes.deferredQueue_eq, ?_, hcalls.pendingAsync_perm, ?_,
      hcalls.inFlight_eq.trans h.describes.inFlight_eq,
      (congrArg (List.map Task.id) hcalls.finished_eq).trans h.describes.finished_ids⟩
    · refine hcalls.callbackQueue_eq.trans ?_
      rw [release, List.map_append, ← h.describes.callbackQueue_eq]
    · refine (congrArg (fun timers : Timers => timers.entries.map _) hcalls.timers_eq).trans ?_
      exact h.describes.dropWhile_timers clock.now
  · rw [htime]
    exact h.ordered.release hle
  · exact hscheduled

protected theorem advanceClock (h : ledger.Accounts submissions engine) (ms : Nat) :
    (ledger.release (later engine.now ms)).Accounts submissions (engine.advanceClock ms).2 :=
  h.releaseDue (engine.clock.advanceBy ms) rfl
    (Nat.le_min.2 ⟨h.now_le, Nat.le_add_right _ _⟩) (Nat.min_le_left _ _)

protected theorem advanceClockTo (h : ledger.Accounts submissions engine) (moment : Nat) :
    (ledger.release (max engine.now (min horizon moment))).Accounts submissions
      (engine.advanceClockTo moment).2 :=
  h.releaseDue (engine.clock.advanceTo moment) rfl (Nat.le_max_left _ _)
    (Nat.max_le.2 ⟨h.now_le, Nat.min_le_left _ _⟩)

end Accounts

end Ledger

end EventLoop
