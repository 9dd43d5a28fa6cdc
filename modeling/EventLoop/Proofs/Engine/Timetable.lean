import EventLoop.Proofs.Engine.Schedule

/-!
# Timers lie ahead

Between operations the schedule is that of the pending tasks, and no timer in
it is overdue (`Timed`).  Only a submission adds to the pending tasks and to
the schedule; every other operation takes from both (`Wanes`).  When the clock
moves, what it reaches is released, so that what stays in the schedule is still
ahead of it.
-/

namespace EventLoop

namespace Engine

/-- The pending tasks and the schedule of an engine become fewer, and the rest
stays as it was. -/
structure Wanes (engine next : Engine) : Prop where
  pending : next.queues.pendingAsync.Sublist engine.queues.pendingAsync
  timers : next.timers.entries.Sublist engine.timers.entries

variable {engine next : Engine} {ids : List Nat}

namespace Wanes

theorem of_eq (hqueues : next.queues = engine.queues) (htimers : next.timers = engine.timers) :
    engine.Wanes next :=
  ⟨hqueues ▸ .refl _, htimers ▸ .refl _⟩

theorem trans {last : Engine} (h : engine.Wanes next) (hlast : next.Wanes last) :
    engine.Wanes last :=
  ⟨hlast.pending.trans h.pending, hlast.timers.trans h.timers⟩

/-- The tasks of a container that do not stay in it leave it. -/
private theorem remove (engine : Engine) {id : Nat} {queue : Queue} {before after : List Task}
    {task : Task} (h : engine.queues.Found id queue before task after) :
    (engine.queues.modify queue fun _ => before ++ after).pendingAsync.Sublist
      engine.queues.pendingAsync := by
  by_cases hqueue : queue = .pendingAsync
  · subst hqueue
    have hget : engine.queues.pendingAsync = before ++ task :: after := h.get_eq
    rw [hget]
    exact (List.Sublist.refl before).append (List.sublist_cons_self task after)
  · rw [Scheduled.modify_pendingAsync hqueue]

protected theorem start (engine : Engine) (id : Nat) : engine.Wanes (engine.start id).2 := by
  rcases engine.queues.absent_or_found id with habsent | ⟨queue, before, task, after, hfound⟩
  · rw [start_absent habsent]
    exact of_eq rfl rfl
  · rw [start_found hfound]
    split
    · exact ⟨remove engine hfound, .refl _⟩
    · exact of_eq rfl rfl

protected theorem complete (engine : Engine) (id : Nat) : engine.Wanes (engine.complete id).2 := by
  obtain ⟨htimers, -, hqueues⟩ := complete_frame engine id
  exact of_eq hqueues htimers

protected theorem fail (engine : Engine) (id : Nat) (reason : String) :
    engine.Wanes (engine.fail id reason).2 := by
  cases hfind : engine.inFlight.find? (·.id = id) with
  | some task =>
      rw [fail_executing hfind]
      exact of_eq rfl rfl
  | none =>
      rcases engine.queues.absent_or_found id with habsent | ⟨queue, before, task, after, hfound⟩
      · rw [fail_absent hfind habsent]
        exact of_eq rfl rfl
      · rw [fail_found hfind hfound]
        refine ⟨remove engine hfound, ?_⟩
        split
        · exact List.eraseP_sublist
        · exact .refl _

protected theorem advanceTimer (engine : Engine) (id : Nat) :
    engine.Wanes (engine.advanceTimer id).2 := by
  obtain ⟨before, task, after, hfound⟩ | helsewhere :=
    engine.queues.found_or_elsewhere id .pendingAsync
  · rw [advanceTimer_found hfound]
    exact ⟨remove engine hfound, List.eraseP_sublist⟩
  · rw [advanceTimer_elsewhere helsewhere]
    exact of_eq rfl rfl

protected theorem release (timers : List Timer) :
    ∀ engine : Engine, engine.Wanes (engine.release timers).2 := by
  induction timers with
  | nil => exact fun _ => of_eq rfl rfl
  | cons timer rest ih =>
      exact fun engine => (Wanes.advanceTimer engine timer.taskId).trans (ih _)

/-- What is due leaves the schedule, whatever the clock shows. -/
protected theorem releaseDue (engine : Engine) (clock : Clock) :
    engine.Wanes ({ engine with clock } : Engine).releaseDue.2 :=
  (⟨.refl _, List.dropWhile_sublist _⟩ : engine.Wanes
    { engine with clock, timers := (engine.timers.popDue clock.now).2 }).trans
      (Wanes.release _ _)

/-- Nothing but a submission adds a task that waits, or a timer. -/
theorem perform (engine : Engine) {operation : Operation}
    (hsubmit : ∀ step, operation ≠ .submit step) :
    engine.Wanes (engine.perform operation).2 := by
  cases operation with
  | submit step => exact absurd rfl (hsubmit step)
  | start id => exact .start engine id
  | complete id => exact .complete engine id
  | fail id reason => exact .fail engine id reason
  | advanceTimer id => exact .advanceTimer engine id
  | advanceClock ms => exact .releaseDue engine _
  | advanceClockTo moment => exact .releaseDue engine _
  | reset => exact ⟨List.nil_sublist _, List.nil_sublist _⟩

end Wanes

/-! ## The schedule of the pending tasks -/

namespace Scheduled

protected theorem complete (h : engine.Scheduled engine.timers.entries) (id : Nat) :
    (engine.complete id).2.Scheduled (engine.complete id).2.timers.entries := by
  obtain ⟨htimers, hclock, hqueues⟩ := complete_frame engine id
  rw [htimers]
  exact h.congr (by rw [hqueues]) (by rw [hclock])

/-- A timer that is ended early leaves the schedule together with its task. -/
protected theorem advanceTimer (h : engine.Scheduled engine.timers.entries) (id : Nat) :
    (engine.advanceTimer id).2.Scheduled (engine.advanceTimer id).2.timers.entries := by
  obtain ⟨before, task, after, hfound⟩ | helsewhere :=
    engine.queues.found_or_elsewhere id .pendingAsync
  · obtain ⟨earlier, timer, later, hsplit, hid, herase⟩ := h.exists_timer hfound.mem
    rw [hfound.id_eq] at herase
    have hremove : (engine.advanceTimer id).2.Scheduled (earlier ++ later) :=
      h.remove hsplit hfound.get_eq hid (by rw [advanceTimer_found hfound]; rfl)
        (by rw [advanceTimer_found hfound]; rfl)
    rw [← herase] at hremove
    have htimers : (engine.advanceTimer id).2.timers.entries =
        engine.timers.entries.eraseP (·.taskId = id) := by
      rw [advanceTimer_found hfound]
      rfl
    exact htimers ▸ hremove
  · rw [advanceTimer_elsewhere helsewhere]
    exact h.congr rfl rfl

/-- Timers that were taken from the schedule find their tasks one after the
other, and the schedule of the others stays. -/
protected theorem release (popped : List Timer) :
    ∀ engine : Engine, engine.Placed ids → engine.Scheduled (popped ++ engine.timers.entries) →
      (engine.release popped).2.Scheduled (engine.release popped).2.timers.entries ∧
        (engine.release popped).2.timers = engine.timers ∧
          (engine.release popped).1 = popped.map Timer.taskId := by
  induction popped with
  | nil => exact fun engine _ h => ⟨h, rfl, rfl⟩
  | cons timer rest ih =>
      intro engine hplaced h
      obtain ⟨before, task, after, hfound, hadvance⟩ :=
        h.advanceTimer_popped hplaced (List.sublist_append_right rest _)
      have htimers : (engine.advanceTimer timer.taskId).2.timers = engine.timers := by
        rw [hadvance]
        rfl
      have hremove : (engine.advanceTimer timer.taskId).2.Scheduled
          ([] ++ (rest ++ engine.timers.entries)) :=
        h.remove rfl hfound.get_eq hfound.id_eq.symm (by rw [hadvance]; rfl) (by rw [hadvance]; rfl)
      obtain ⟨hscheduled, hsame, hids⟩ := ih (engine.advanceTimer timer.taskId).2
        (hplaced.advanceTimer timer.taskId) (htimers.symm ▸ hremove)
      refine ⟨hscheduled, hsame.trans htimers, ?_⟩
      have hok : (engine.advanceTimer timer.taskId).1 = .ok () := by rw [hadvance]
      simp only [Engine.release, hok, hids, List.map_cons]

/-- When the clock moves, the timers that it reaches are released. -/
protected theorem releaseDue (h : engine.Scheduled engine.timers.entries)
    (hplaced : engine.Placed ids) (clock : Clock) (hclock : clock.nextTimer = engine.clock.nextTimer) :
    let outcome := ({ engine with clock } : Engine).releaseDue
    outcome.2.Scheduled outcome.2.timers.entries ∧
      outcome.2.timers = (engine.timers.popDue clock.now).2 ∧
        outcome.1 = (engine.timers.popDue clock.now).1.map Timer.taskId := by
  -- between the two halves of the call the due timers have left the schedule
  let moved : Engine := { engine with clock, timers := (engine.timers.popDue clock.now).2 }
  have hmoved : moved.Scheduled ((engine.timers.popDue clock.now).1 ++ moved.timers.entries) := by
    rw [Timers.popDue_append]
    exact h.congr rfl hclock
  have hpopped : moved.Placed ids := hplaced.congr rfl rfl
  exact Scheduled.release _ moved hpopped hmoved

theorem empty (hpending : engine.queues.pendingAsync = []) : engine.Scheduled [] :=
  ⟨by simp [hpending], .nil, by simp, by simp⟩

end Scheduled

/-! ## No timer is overdue -/

/-- The schedule is that of the pending tasks, and none of its timers is due
before the present. -/
structure Timed (engine : Engine) : Prop where
  scheduled : engine.Scheduled engine.timers.entries
  now_le_horizon : engine.now ≤ horizon
  now_le_dueAt : ∀ timer ∈ engine.timers.entries, engine.now ≤ timer.dueAt

namespace Timed

/-- The time of an engine that loses timers only has to stay the same. -/
theorem of_wanes (h : engine.Timed) (hwanes : engine.Wanes next) (hnow : next.now = engine.now)
    (hscheduled : next.Scheduled next.timers.entries) : next.Timed :=
  ⟨hscheduled, hnow ▸ h.now_le_horizon, fun timer htimer =>
    hnow ▸ h.now_le_dueAt timer (hwanes.timers.subset htimer)⟩

protected theorem submit (h : engine.Timed) (hplaced : engine.Placed ids) (step : Step) :
    (engine.submit step).2.Timed := by
  have hnow := submit_now engine step
  refine ⟨h.scheduled.submit hplaced step, hnow ▸ h.now_le_horizon, ?_⟩
  rw [submit_timers, hnow]
  split
  · intro timer htimer
    rw [Timers.schedule, Timers.insertTimer_eq _ h.scheduled.seq_lt] at htimer
    rcases List.mem_cons.1 ((perm_insert _ _ _).mem_iff.1 htimer) with rfl | hmem
    · exact Nat.le_min.2 ⟨h.now_le_horizon, Nat.le_add_right _ _⟩
    · exact h.now_le_dueAt timer hmem
  · exact h.now_le_dueAt

/-- A clock that moves on leaves behind the timers that it does not reach. -/
theorem releaseDue (h : engine.Timed) (hplaced : engine.Placed ids) {clock : Clock}
    (hclock : clock.nextTimer = engine.clock.nextTimer) (hnow : clock.now ≤ horizon) :
    ({ engine with clock } : Engine).releaseDue.2.Timed := by
  obtain ⟨hscheduled, htimers, -⟩ := h.scheduled.releaseDue hplaced clock hclock
  have htime : ({ engine with clock } : Engine).releaseDue.2.now = clock.now :=
    congrArg Clock.now (clock_release _ _)
  refine ⟨hscheduled, htime ▸ hnow, ?_⟩
  rw [htimers, htime]
  intro timer htimer
  have hsorted : engine.timers.entries.Pairwise fun a b => a.dueAt ≤ b.dueAt :=
    h.scheduled.sorted.imp Timer.dueAt_le_of_before
  exact Nat.le_of_lt (lt_of_mem_dropWhile hsorted htimer)

theorem reset (engine : Engine) : engine.reset.Timed :=
  ⟨.empty rfl, Nat.zero_le _, by simp [Engine.reset, Timers.empty]⟩

theorem withTraceCapacity (capacity : Nat) : (Engine.withTraceCapacity capacity).Timed :=
  ⟨.empty rfl, Nat.zero_le _, by simp [Engine.withTraceCapacity, Timers.empty]⟩

/-- Every operation leaves all timers ahead. -/
theorem perform (h : engine.Timed) (hplaced : engine.Placed ids) (operation : Operation) :
    (engine.perform operation).2.Timed := by
  cases operation with
  | submit step => exact h.submit hplaced step
  | start id =>
      refine h.of_wanes (.start engine id) (congrArg Clock.now (clock_start engine id)) ?_
      have htimers : (engine.start id).2.timers = engine.timers := by
        unfold start
        split
        · rfl
        · split <;> rfl
      exact htimers ▸ h.scheduled.start hplaced id
  | complete id =>
      exact h.of_wanes (.complete engine id)
        (congrArg Clock.now (complete_frame engine id).2.1) (h.scheduled.complete id)
  | fail id reason =>
      exact h.of_wanes (.fail engine id reason) (congrArg Clock.now (clock_fail engine id reason))
        (h.scheduled.fail id reason)
  | advanceTimer id =>
      exact h.of_wanes (.advanceTimer engine id) (congrArg Clock.now (clock_advanceTimer engine id))
        (h.scheduled.advanceTimer id)
  | advanceClock ms => exact h.releaseDue hplaced rfl (Nat.min_le_left _ _)
  | advanceClockTo moment =>
      exact h.releaseDue hplaced rfl (Nat.max_le.2 ⟨h.now_le_horizon, Nat.min_le_left _ _⟩)
  | reset => exact reset engine

/-- Only a reset turns the clock back. -/
theorem now_le_perform (h : engine.Timed) {operation : Operation} (hreset : operation ≠ .reset) :
    engine.now ≤ (engine.perform operation).2.now := by
  cases operation with
  | submit step => exact (submit_now engine step).ge
  | start id => exact (congrArg Clock.now (clock_start engine id)).ge
  | complete id => exact (congrArg Clock.now (complete_frame engine id).2.1).ge
  | fail id reason => exact (congrArg Clock.now (clock_fail engine id reason)).ge
  | advanceTimer id => exact (congrArg Clock.now (clock_advanceTimer engine id)).ge
  | advanceClock ms =>
      have hnow := now_advanceClock engine ms
      exact hnow ▸ Nat.le_min.2 ⟨h.now_le_horizon, Nat.le_add_right _ _⟩
  | advanceClockTo moment =>
      have hnow := now_advanceClockTo engine moment
      exact hnow ▸ Nat.le_max_left _ _
  | reset => exact absurd rfl hreset

end Timed

end Engine

end EventLoop
