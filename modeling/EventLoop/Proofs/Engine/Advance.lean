import EventLoop.Proofs.Engine.Release

/-!
# Time in pieces

Time can be moved on in one go or in pieces.  The timers that are due by the
later moment are those due by the earlier one and then those that become due in
between, so the tasks are called in the same order, and both ways lead to the
same engine.  Only the trace tells them apart: an event of a timer that has
elapsed carries the moment at which time stood still, and with pieces this is an
earlier one.  What two histories have in common when they differ in this point
only is `Alike`.
-/

namespace EventLoop

/-! ## Histories that differ in when timers elapsed -/

/-- Two events that differ at most in the moment at which a timer elapsed. -/
structure TraceEvent.Alike (event other : TraceEvent) : Prop where
  seq_eq : event.seq = other.seq
  taskId_eq : event.taskId = other.taskId
  kind_eq : event.kind = other.kind
  message_eq : event.message = other.message
  atMs_eq : event.kind ≠ .timerElapsed → event.atMs = other.atMs

/-- Two logs with room for the same number of events, which hold alike ones. -/
structure TraceLog.Alike (log other : TraceLog) : Prop where
  capacity_eq : log.capacity = other.capacity
  nextSeq_eq : log.nextSeq = other.nextSeq
  events : List.Forall₂ TraceEvent.Alike log.events other.events

theorem TraceEvent.Alike.refl (event : TraceEvent) : event.Alike event :=
  ⟨rfl, rfl, rfl, rfl, fun _ => rfl⟩

namespace TraceLog.Alike

variable {log other : TraceLog}

theorem refl (log : TraceLog) : log.Alike log :=
  ⟨rfl, rfl, List.forall₂_same.2 fun event _ => .refl event⟩

/-- A timer that elapses is on record in both, whatever the time. -/
theorem tell_elapse (h : log.Alike other) (task : Task) (now later : Nat) :
    (log.tell (task.elapseNotice now)).Alike (other.tell (task.elapseNotice later)) := by
  refine ⟨h.capacity_eq, congrArg (· + 1) h.nextSeq_eq, ?_⟩
  have hevent : TraceEvent.Alike
      (log.nextEvent now (some task.id) .timerElapsed
        (Engine.arrival task.description .callbackQueue))
      (other.nextEvent later (some task.id) .timerElapsed
        (Engine.arrival task.description .callbackQueue)) :=
    ⟨h.nextSeq_eq, rfl, rfl, rfl, fun hkind => absurd rfl hkind⟩
  -- both logs displace as many events
  have hdrop := List.forall₂_drop (log.events.length + 1 - log.capacity) h.events
  rw [tell, tell, record, record, ← h.capacity_eq, ← h.events.length_eq]
  exact List.rel_append hdrop (.cons hevent .nil)

theorem tellAll_elapse (tasks : List Task) (now later : Nat) :
    ∀ {log other : TraceLog}, log.Alike other →
      (log.tellAll (tasks.map (Task.elapseNotice now))).Alike
        (other.tellAll (tasks.map (Task.elapseNotice later))) := by
  induction tasks with
  | nil => exact fun h => h
  | cons task rest ih => exact fun h => ih (h.tell_elapse task now later)

end TraceLog.Alike

namespace Engine

/-- Two engines that are the same but for the moments at which timers elapsed,
as their traces tell it. -/
structure Alike (engine other : Engine) : Prop where
  queues_eq : engine.queues = other.queues
  inFlight_eq : engine.inFlight = other.inFlight
  finished_eq : engine.finished = other.finished
  clock_eq : engine.clock = other.clock
  timers_eq : engine.timers = other.timers
  nextId_eq : engine.nextId = other.nextId
  trace : engine.trace.Alike other.trace

variable {engine other : Engine}

theorem Alike.call (h : engine.Alike other) (timers : List Timer) :
    (engine.call timers).Alike (other.call timers) := by
  have hwaiting : engine.waitingFor timers = other.waitingFor timers := by
    rw [waitingFor, waitingFor, h.queues_eq]
  have htrace := TraceLog.Alike.tellAll_elapse (other.waitingFor timers) engine.now other.now h.trace
  rw [Engine.call, Engine.call, hwaiting, h.queues_eq]
  exact ⟨rfl, h.inFlight_eq, h.finished_eq, h.clock_eq, h.timers_eq, h.nextId_eq, htrace⟩

/-! ## Two moves of the clock -/

variable {first second : Nat}

/-- What is due by the later moment is due by the earlier one, or it becomes due
in between. -/
theorem Scheduled.dueBy_append (h : engine.Scheduled engine.timers.entries)
    (hle : first ≤ second) :
    engine.dueBy first ++ (engine.popped first).dueBy second = engine.dueBy second := by
  have hsorted : (engine.dueBy second).Pairwise fun a b => a.dueAt ≤ b.dueAt :=
    (h.sorted.sublist List.filter_sublist).imp Timer.dueAt_le_of_before
  obtain ⟨htake, hdrop⟩ := takeWhile_eq_filter hsorted first
  have hearly : (engine.dueBy second).filter (·.dueAt ≤ first) = engine.dueBy first := by
    rw [dueBy, List.filter_filter]
    refine List.filter_congr fun timer _ => ?_
    rw [← Bool.decide_and]
    exact decide_eq_decide.2 (by omega)
  have hlate : (engine.dueBy second).filter (first < ·.dueAt) =
      (engine.popped first).dueBy second := by
    rw [dueBy, dueBy, popped, List.filter_filter, List.filter_filter]
    exact List.filter_congr fun timer _ => Bool.and_comm _ _
  rw [← hearly, ← hlate, ← htake, ← hdrop, List.takeWhile_append_dropWhile]

theorem popped_popped (engine : Engine) (hle : first ≤ second) :
    (engine.popped first).popped second = engine.popped second := by
  have hfilter : (engine.timers.entries.filter (first < ·.dueAt)).filter (second < ·.dueAt) =
      engine.timers.entries.filter (second < ·.dueAt) := by
    rw [List.filter_filter]
    refine List.filter_congr fun timer _ => ?_
    rw [← Bool.decide_and]
    exact decide_eq_decide.2 (by omega)
  exact congrArg (fun entries => { engine.popped second with timers := ⟨entries⟩ }) hfilter

/-- Whether tasks are called before or after the clock moves on is seen in the
trace only. -/
theorem popped_call (engine : Engine) (timers : List Timer) (moment : Nat) :
    ((engine.call timers).popped moment).Alike ((engine.popped moment).call timers) :=
  ⟨rfl, rfl, rfl, rfl, rfl, rfl, .tellAll_elapse _ _ _ (.refl engine.trace)⟩

namespace Sound

theorem moveTo (h : engine.Sound) {moment : Nat} (hmoment : moment ≤ horizon) :
    (engine.moveTo moment).2.Sound := by
  obtain ⟨ids, hplaced⟩ := h.placed
  exact ⟨⟨ids, (hplaced.with_clock _).releaseDue⟩, h.timed.releaseDue hplaced rfl hmoment⟩

/-- Moving to a moment on the way first makes no difference. -/
theorem moveTo_moveTo (h : engine.Sound) (hfirst : first ≤ horizon) (hle : first ≤ second) :
    (engine.moveTo first).1 ++ ((engine.moveTo first).2.moveTo second).1 =
        (engine.moveTo second).1 ∧
      ((engine.moveTo first).2.moveTo second).2.Alike (engine.moveTo second).2 := by
  obtain ⟨ids, hplaced⟩ := h.placed
  have hbetween := h.moveTo hfirst
  have hdue := h.timed.scheduled.dueBy_append hle
  rw [h.moveTo_eq first] at hbetween ⊢
  rw [hbetween.moveTo_eq second, h.moveTo_eq second]
  -- calling tasks does not touch the schedule
  have hsame : ((engine.popped first).call (engine.dueBy first)).dueBy second =
      (engine.popped first).dueBy second := rfl
  rw [hsame]
  constructor
  · rw [← List.map_append, hdue]
  · have hapart : Apart (engine.dueBy first) ((engine.popped first).dueBy second) := by
      refine .of_nodup ?_
      rw [hdue]
      exact (h.timed.scheduled.nodup hplaced).sublist (List.filter_sublist.map _)
    have halike := popped_call (engine.popped first) (engine.dueBy first) second
    rw [popped_popped engine hle] at halike
    have hcalled := halike.call ((engine.popped first).dueBy second)
    rwa [call_call hapart, hdue] at hcalled

end Sound

/-- A delay that is cut into two leads to the same moment. -/
theorem later_later (now first second : Nat) :
    later (later now first) second = later now (min horizon (first + second)) := by
  unfold later
  omega

/-- **Time can be moved on in pieces**, in every state that a run reaches.
Whether by two delays or by two moments, the same tasks are called in the same
order as by one move, and the engine that is reached is the same but for the
moments at which timers elapsed, as the trace tells it. -/
theorem advance_in_pieces (capacity : Nat) (operations : List Operation) {moment last : Nat}
    (hle : moment ≤ last) (ms more : Nat) :
    let engine := ((withTraceCapacity capacity).performAll operations).2
    let delayed := engine.advanceClock ms
    let moved := engine.advanceClockTo moment
    (delayed.1 ++ (delayed.2.advanceClock more).1 =
          (engine.advanceClock (min horizon (ms + more))).1 ∧
        (delayed.2.advanceClock more).2.Alike
          (engine.advanceClock (min horizon (ms + more))).2) ∧
      moved.1 ++ (moved.2.advanceClockTo last).1 = (engine.advanceClockTo last).1 ∧
        (moved.2.advanceClockTo last).2.Alike (engine.advanceClockTo last).2 := by
  intro engine delayed moved
  have hsound : engine.Sound := sound_of_run capacity operations
  have hnow := hsound.timed.now_le_horizon
  constructor
  · have hstep : delayed.2.now = later engine.now ms := now_advanceClock engine ms
    have htime : later delayed.2.now more = later engine.now (min horizon (ms + more)) := by
      rw [hstep, later_later]
    have hahead : later engine.now ms ≤ later delayed.2.now more := by
      rw [hstep]
      exact Nat.le_min.2 ⟨Nat.min_le_left _ _, Nat.le_add_right _ _⟩
    rw [advanceClock_eq_moveTo engine (min horizon (ms + more)), ← htime]
    exact hsound.moveTo_moveTo (Nat.min_le_left _ _) hahead
  · have hstep : moved.2.now = max engine.now (min horizon moment) :=
      now_advanceClockTo engine moment
    have htime : max moved.2.now (min horizon last) = max engine.now (min horizon last) := by
      rw [hstep]
      omega
    have hahead : max engine.now (min horizon moment) ≤ max moved.2.now (min horizon last) :=
      hstep ▸ Nat.le_max_left _ _
    rw [advanceClockTo_eq_moveTo engine last, ← htime]
    exact hsound.moveTo_moveTo (Nat.max_le.2 ⟨hnow, Nat.min_le_left _ _⟩) hahead

/-- A step that waits for some milliseconds. -/
private def stepAfter (ms : Nat) : Step :=
  { kind := .callExpression, sourceLine := 1, description := "wait", action := .timer,
    delayMs := ms, targetQueue := .pendingAsync }

/-- Of timers after five, two and five milliseconds the second one elapses on
the way to the sixth, and the others at the end of it; the traces differ. -/
theorem advance_in_pieces_three :
    let operations : List Operation :=
      [.submit (stepAfter 5), .submit (stepAfter 2), .submit (stepAfter 5)]
    let engine := ((withTraceCapacity 5).performAll operations).2
    let delayed := engine.advanceClock 2
    let moved := engine.advanceClockTo 2
    (moved.1 = [2] ∧ (moved.2.advanceClockTo 6).1 = [1, 3] ∧
      (moved.2.advanceClockTo 6).2.trace ≠ (engine.advanceClockTo 6).2.trace) ∧ 2 ≤ 6 ∧
    (delayed.1 ++ (delayed.2.advanceClock horizon).1 =
          (engine.advanceClock (min horizon (2 + horizon))).1 ∧
        (delayed.2.advanceClock horizon).2.Alike
          (engine.advanceClock (min horizon (2 + horizon))).2) ∧
      moved.1 ++ (moved.2.advanceClockTo 6).1 = (engine.advanceClockTo 6).1 ∧
        (moved.2.advanceClockTo 6).2.Alike (engine.advanceClockTo 6).2 :=
  ⟨by decide +kernel, by decide, advance_in_pieces 5 _ (by decide) 2 horizon⟩

end Engine

end EventLoop
