import EventLoop.Proofs.Engine.Registry

/-!
# What a move of the clock does

When the clock moves on, the timers that it reaches leave the schedule at once,
and their tasks follow one by one, each by an operation that may be refused and
whose refusal would go unnoticed.  None is refused, because the schedule is
that of the pending tasks; so the whole call has a closed form, in which the
tasks of the due timers are looked up in the engine as it was before
(`Sound.moveTo_eq`).

`call` is that closed form.  Calling some tasks and then others is calling them
all (`call_call`), which is what makes the form an invariant of the loop.
-/

namespace EventLoop

/-- A task as it waits to be called back, once its timer has elapsed. -/
def Task.called (task : Task) : Task :=
  { task with status := .pending, queue := .callbackQueue }

/-- What is told of a task whose timer elapses. -/
def Task.elapseNotice (now : Nat) (task : Task) : Notice :=
  ⟨now, task.id, .timerElapsed, Engine.arrival task.description .callbackQueue⟩

namespace Engine

variable {engine : Engine} {ids : List Nat}

/-- The pending tasks of timers, in the order of the timers. -/
def waitingFor (engine : Engine) (timers : List Timer) : List Task :=
  timers.filterMap fun timer => engine.queues.pendingAsync.find? (·.id = timer.taskId)

/-- The engine after the pending tasks of some timers have been called. -/
def call (engine : Engine) (timers : List Timer) : Engine :=
  { engine with
    queues := { engine.queues with
      pendingAsync := engine.queues.pendingAsync.filter (·.id ∉ timers.map Timer.taskId)
      callbackQueue := engine.queues.callbackQueue ++ (engine.waitingFor timers).map Task.called }
    trace := engine.trace.tellAll ((engine.waitingFor timers).map (Task.elapseNotice engine.now)) }

theorem call_nil (engine : Engine) : engine.call [] = engine := by
  simp [call, waitingFor, TraceLog.tellAll]

theorem waitingFor_append (engine : Engine) (first second : List Timer) :
    engine.waitingFor (first ++ second) = engine.waitingFor first ++ engine.waitingFor second :=
  List.filterMap_append

theorem waitingFor_cons {timer : Timer} {task : Task}
    (h : engine.queues.pendingAsync.find? (·.id = timer.taskId) = some task) (rest : List Timer) :
    engine.waitingFor (timer :: rest) = task :: engine.waitingFor rest := by
  simp [waitingFor, h]

theorem waitingFor_subset (engine : Engine) (timers : List Timer) :
    engine.waitingFor timers ⊆ engine.queues.pendingAsync := by
  intro task htask
  obtain ⟨timer, -, hfind⟩ := List.mem_filterMap.1 htask
  exact List.mem_of_find?_eq_some hfind

/-! ## Calling in turns -/

/-- Two groups of timers that have no task in common. -/
def Apart (first second : List Timer) : Prop :=
  ∀ a ∈ first, ∀ b ∈ second, a.taskId ≠ b.taskId

theorem Apart.of_nodup {first second : List Timer}
    (h : ((first ++ second).map Timer.taskId).Nodup) : Apart first second := by
  rw [List.map_append] at h
  intro a ha b hb heq
  exact (List.nodup_append.1 h).2.2 _ (List.mem_map_of_mem ha) _ (List.mem_map_of_mem hb) heq

/-- The tasks of some timers are found whether or not others have left. -/
theorem waitingFor_call {first second : List Timer} (h : Apart first second) :
    (engine.call first).waitingFor second = engine.waitingFor second := by
  refine List.filterMap_congr fun timer htimer => ?_
  have hstays : ∀ task : Task, task.id = timer.taskId → task.id ∉ first.map Timer.taskId := by
    intro task hid hmem
    obtain ⟨other, hother, heq⟩ := List.mem_map.1 hmem
    exact h other hother timer htimer (heq.trans hid)
  rw [call, List.find?_filter]
  congr 1
  funext task
  by_cases hid : task.id = timer.taskId
  · simpa [hid] using hstays task hid
  · simp [hid]

theorem call_call {first second : List Timer} (h : Apart first second) :
    (engine.call first).call second = engine.call (first ++ second) := by
  have hwaiting : (engine.call first).waitingFor second = engine.waitingFor second :=
    waitingFor_call h
  have hpending : (engine.call first).queues.pendingAsync.filter
      (·.id ∉ second.map Timer.taskId) =
        engine.queues.pendingAsync.filter (·.id ∉ (first ++ second).map Timer.taskId) := by
    rw [call, List.filter_filter]
    refine List.filter_congr fun task _ => ?_
    simp only [List.map_append, List.mem_append, not_or, Bool.decide_and, Bool.and_comm]
  have hcallback : (engine.call first).queues.callbackQueue ++
      (engine.waitingFor second).map Task.called =
        engine.queues.callbackQueue ++ (engine.waitingFor (first ++ second)).map Task.called := by
    rw [waitingFor_append, List.map_append, ← List.append_assoc]
    rfl
  have htrace : (engine.call first).trace.tellAll
      ((engine.waitingFor second).map (Task.elapseNotice engine.now)) =
        engine.trace.tellAll
          ((engine.waitingFor (first ++ second)).map (Task.elapseNotice engine.now)) := by
    rw [waitingFor_append, List.map_append, TraceLog.tellAll_append]
    rfl
  rw [call, hwaiting, hpending, hcallback]
  exact congrArg (fun trace => { engine.call (first ++ second) with trace }) htrace

/-! ## The release of due timers -/

namespace Scheduled

variable {timers : List Timer}

/-- Every timer finds the task that waits for it. -/
theorem map_id_waitingFor (h : engine.Scheduled timers) {group : List Timer}
    (hgroup : group ⊆ timers) :
    (engine.waitingFor group).map Task.id = group.map Timer.taskId := by
  induction group with
  | nil => rfl
  | cons timer rest ih =>
      obtain ⟨task, htask, hid⟩ := h.exists_task (hgroup List.mem_cons_self)
      obtain ⟨found, hfound⟩ : ∃ found, engine.queues.pendingAsync.find?
          (·.id = timer.taskId) = some found := by
        refine Option.isSome_iff_exists.1 (List.find?_isSome.2 ⟨task, htask, ?_⟩)
        simpa using hid
      have hfoundId : found.id = timer.taskId := by simpa using List.find?_some hfound
      have hrest := ih fun other hother => hgroup (List.mem_cons_of_mem _ hother)
      rw [waitingFor_cons hfound, List.map_cons, List.map_cons, hfoundId, hrest]

/-- A timer that was taken from the schedule calls its task. -/
theorem advanceTimer_eq_call {timer : Timer} (h : engine.Scheduled (timer :: timers))
    (hplaced : engine.Placed ids) (hsuffix : engine.timers.entries.Sublist timers) :
    engine.advanceTimer timer.taskId = (.ok (), engine.call [timer]) := by
  obtain ⟨before, task, after, hfound, hadvance⟩ := h.advanceTimer_popped hplaced hsuffix
  have hpending : engine.queues.pendingAsync = before ++ task :: after := hfound.get_eq
  have hfind : engine.queues.pendingAsync.find? (·.id = timer.taskId) = some task := by
    rw [hpending, List.find?_append, List.find?_eq_none.2 (by simpa using hfound.ne_of_mem_before)]
    simp [hfound.id_eq]
  -- the ids of the pending tasks are distinct, so that only this task leaves
  have hnodup : (engine.queues.pendingAsync.map Task.id).Nodup :=
    h.ids_perm.nodup_iff.1 (h.nodup hplaced)
  have hafter : ∀ other ∈ after, other.id ≠ timer.taskId := by
    rw [hpending, List.map_append, List.map_cons, hfound.id_eq] at hnodup
    intro other hother heq
    have hcons := (List.nodup_append.1 hnodup).2.1
    exact (List.nodup_cons.1 hcons).1 (heq ▸ List.mem_map_of_mem hother)
  have hfilter : engine.queues.pendingAsync.filter (·.id ∉ [timer].map Timer.taskId) =
      before ++ after := by
    have hbefore := hfound.ne_of_mem_before
    rw [hpending, List.filter_append, List.filter_cons_of_neg (by simp [hfound.id_eq]),
      List.filter_eq_self.2 (by simpa using hbefore), List.filter_eq_self.2 (by simpa using hafter)]
  have hwaiting : engine.waitingFor [timer] = [task] := waitingFor_cons hfind []
  rw [hadvance, call, hwaiting, hfilter, ← hfound.id_eq]
  rfl

/-- Timers that were taken from the schedule call their tasks, in their order;
what is left of them is still that of the pending tasks. -/
theorem release_eq_call (popped : List Timer) :
    ∀ engine : Engine, engine.Placed ids → engine.Scheduled (popped ++ timers) →
      engine.timers.entries.Sublist timers →
        engine.release popped = (popped.map Timer.taskId, engine.call popped) ∧
          (engine.call popped).Scheduled timers := by
  induction popped with
  | nil =>
      intro engine _ h _
      rw [call_nil]
      exact ⟨rfl, h⟩
  | cons timer rest ih =>
      intro engine hplaced h hsub
      have hsuffix : engine.timers.entries.Sublist (rest ++ timers) :=
        hsub.trans (List.sublist_append_right rest timers)
      have hadvance := h.advanceTimer_eq_call hplaced hsuffix
      obtain ⟨before, task, after, hfound, hpopped⟩ := h.advanceTimer_popped hplaced hsuffix
      have hplaced' := hplaced.advanceTimer timer.taskId
      have hscheduled : (engine.advanceTimer timer.taskId).2.Scheduled ([] ++ (rest ++ timers)) :=
        h.remove rfl hfound.get_eq hfound.id_eq.symm (by rw [hpopped]; rfl) (by rw [hpopped]; rfl)
      rw [hadvance] at hplaced' hscheduled
      obtain ⟨hrest, hkept⟩ := ih (engine.call [timer]) hplaced' hscheduled hsub
      have hapart : Apart [timer] rest := by
        refine .of_nodup ((h.nodup hplaced).sublist ?_)
        exact (List.sublist_append_left (timer :: rest) _).map Timer.taskId
      rw [call_call hapart] at hrest hkept
      refine ⟨?_, hkept⟩
      simp only [release, hadvance, hrest, List.map_cons, List.singleton_append]

end Scheduled

/-! ## A move of the clock -/

/-- Moves time to a moment and lets the timers elapse that are due by then. -/
def moveTo (engine : Engine) (moment : Nat) : List Nat × Engine :=
  { engine with clock := { engine.clock with now := moment } }.releaseDue

theorem advanceClock_eq_moveTo (engine : Engine) (ms : Nat) :
    engine.advanceClock ms = engine.moveTo (later engine.now ms) := rfl

theorem advanceClockTo_eq_moveTo (engine : Engine) (moment : Nat) :
    engine.advanceClockTo moment = engine.moveTo (max engine.now (min horizon moment)) := rfl

/-- The timers of the schedule that are due at a moment. -/
def dueBy (engine : Engine) (moment : Nat) : List Timer :=
  engine.timers.entries.filter (·.dueAt ≤ moment)

/-- The engine between the two halves of a move of the clock: the due timers
have left the schedule, and their tasks are still pending. -/
def popped (engine : Engine) (moment : Nat) : Engine :=
  { engine with
    clock := { engine.clock with now := moment }
    timers := ⟨engine.timers.entries.filter (moment < ·.dueAt)⟩ }

/-- In a list ordered by a key, the small keys are those at its start. -/
theorem takeWhile_eq_filter {α : Type} {key : α → Nat} {list : List α}
    (hsorted : list.Pairwise fun a b => key a ≤ key b) (bound : Nat) :
    list.takeWhile (key · ≤ bound) = list.filter (key · ≤ bound) ∧
      list.dropWhile (key · ≤ bound) = list.filter (bound < key ·) := by
  have hsmall : ∀ a ∈ list.takeWhile (key · ≤ bound), key a ≤ bound := fun a ha => by
    simpa using List.mem_takeWhile_imp ha
  have hlarge : ∀ a ∈ list.dropWhile (key · ≤ bound), bound < key a := fun a ha =>
    lt_of_mem_dropWhile hsorted ha
  constructor
  · conv_rhs => rw [← List.takeWhile_append_dropWhile (p := (key · ≤ bound)) (l := list)]
    rw [List.filter_append, List.filter_eq_self.2 (by simpa using hsmall),
      List.filter_eq_nil_iff.2 (by simpa using hlarge), List.append_nil]
  · conv_rhs => rw [← List.takeWhile_append_dropWhile (p := (key · ≤ bound)) (l := list)]
    rw [List.filter_append, List.filter_eq_nil_iff.2 (by simpa using hsmall),
      List.filter_eq_self.2 (by simpa using hlarge), List.nil_append]

theorem Scheduled.popDue_eq (h : engine.Scheduled engine.timers.entries) (moment : Nat) :
    engine.timers.popDue moment = (engine.dueBy moment, (engine.popped moment).timers) := by
  have hsorted : engine.timers.entries.Pairwise fun a b => a.dueAt ≤ b.dueAt :=
    h.sorted.imp Timer.dueAt_le_of_before
  obtain ⟨htake, hdrop⟩ := takeWhile_eq_filter hsorted moment
  rw [Timers.popDue, htake, hdrop]
  rfl

namespace Sound

/-- The timers that leave the schedule together with those that stay in it. -/
theorem scheduled_popped (h : engine.Sound) (moment : Nat) :
    (engine.popped moment).Scheduled
      (engine.dueBy moment ++ (engine.popped moment).timers.entries) := by
  have happend := Timers.popDue_append engine.timers moment
  rw [h.timed.scheduled.popDue_eq moment] at happend
  rw [happend]
  exact h.timed.scheduled.congr rfl rfl

/-- What a move of the clock does, in the terms of the engine before it. -/
theorem moveTo_eq (h : engine.Sound) (moment : Nat) :
    engine.moveTo moment = ((engine.dueBy moment).map Timer.taskId,
      (engine.popped moment).call (engine.dueBy moment)) := by
  obtain ⟨ids, hplaced⟩ := h.placed
  have hplaced' : (engine.popped moment).Placed ids := hplaced.congr rfl rfl
  have hrelease := (Scheduled.release_eq_call _ _ hplaced' (h.scheduled_popped moment) (.refl _)).1
  have hdue := h.timed.scheduled.popDue_eq moment
  rw [← hrelease, moveTo, releaseDue]
  simp only [now, hdue]
  rfl

/-- No timer is refused when its turn comes. -/
theorem advanceTimer_ok (h : engine.Sound) {moment : Nat} {earlier later : List Timer}
    {timer : Timer} (hsplit : engine.dueBy moment = earlier ++ timer :: later) :
    (((engine.popped moment).release earlier).2.advanceTimer timer.taskId).1 = .ok () := by
  obtain ⟨ids, hplaced⟩ := h.placed
  have hplaced' : (engine.popped moment).Placed ids := hplaced.congr rfl rfl
  have hscheduled := h.scheduled_popped moment
  rw [hsplit, List.append_assoc, List.cons_append] at hscheduled
  have hsuffix : (engine.popped moment).timers.entries.Sublist
      (later ++ (engine.popped moment).timers.entries) := List.sublist_append_right _ _
  obtain ⟨hrelease, hrest⟩ := Scheduled.release_eq_call earlier _ hplaced' hscheduled
    (hsuffix.trans (List.sublist_cons_self timer _))
  have hcalled := hplaced'.release earlier
  rw [hrelease] at hcalled ⊢
  rw [hrest.advanceTimer_eq_call hcalled hsuffix]

end Sound

/-! ## What a move of the clock brings about -/

/-- An engine whose clock moves on to a moment gives some ids and becomes
another engine. -/
structure MovesTo (engine : Engine) (moment : Nat) (outcome : List Nat × Engine) : Prop where
  now_eq : outcome.2.now = moment
  /-- The ids are those of the pending tasks whose timers are due. -/
  mem_released : ∀ id, id ∈ outcome.1 ↔ ∃ task ∈ engine.queues.pendingAsync, task.id = id ∧
    ∃ timer ∈ engine.timers.entries, timer.taskId = id ∧ timer.dueAt ≤ moment
  nodup_released : outcome.1.Nodup
  /-- They come by due time, and then in the order in which the timers were
  registered. -/
  released_eq : outcome.1 = (engine.dueBy moment).map Timer.taskId
  ordered : (engine.dueBy moment).Pairwise fun a b =>
    a.dueAt < b.dueAt ∨ a.dueAt = b.dueAt ∧ a.seq < b.seq
  /-- Their tasks are called in this order. -/
  callbackQueue_eq : ∃ tasks ⊆ engine.queues.pendingAsync, tasks.map Task.id = outcome.1 ∧
    outcome.2.queues.callbackQueue = engine.queues.callbackQueue ++ tasks.map Task.called
  /-- The others go on waiting, and their timers stay in the schedule. -/
  pendingAsync_eq :
    outcome.2.queues.pendingAsync = engine.queues.pendingAsync.filter (·.id ∉ outcome.1)
  timers_eq : outcome.2.timers.entries = engine.timers.entries.filter (moment < ·.dueAt)
  callStack_eq : outcome.2.queues.callStack = engine.queues.callStack
  deferredQueue_eq : outcome.2.queues.deferredQueue = engine.queues.deferredQueue
  inFlight_eq : outcome.2.inFlight = engine.inFlight
  finished_eq : outcome.2.finished = engine.finished
  nextId_eq : outcome.2.nextId = engine.nextId
  nextTimer_eq : outcome.2.clock.nextTimer = engine.clock.nextTimer
  /-- No timer is refused when its turn comes. -/
  advanceTimer_ok : ∀ earlier timer later, engine.dueBy moment = earlier ++ timer :: later →
    (((engine.popped moment).release earlier).2.advanceTimer timer.taskId).1 = .ok ()

theorem Sound.movesTo (h : engine.Sound) (hseq : (engine.timers.entries.map Timer.seq).Nodup)
    (moment : Nat) :
    engine.MovesTo moment (engine.moveTo moment) := by
  obtain ⟨ids, hplaced⟩ := h.placed
  have hscheduled := h.timed.scheduled
  have hdue : engine.dueBy moment ⊆ engine.timers.entries := List.filter_subset_self _
  rw [h.moveTo_eq moment]
  exact
    { now_eq := rfl
      mem_released := fun id => by
        constructor
        · intro hid
          obtain ⟨timer, htimer, rfl⟩ := List.mem_map.1 hid
          obtain ⟨task, htask, heq⟩ := hscheduled.exists_task (hdue htimer)
          have hle : timer.dueAt ≤ moment := by simpa using (List.mem_filter.1 htimer).2
          exact ⟨task, htask, heq, timer, hdue htimer, rfl, hle⟩
        · rintro ⟨-, -, -, timer, htimer, rfl, hle⟩
          exact List.mem_map_of_mem (List.mem_filter.2 ⟨htimer, by simpa using hle⟩)
      nodup_released := (hscheduled.nodup hplaced).sublist (List.filter_sublist.map _)
      released_eq := rfl
      ordered := by
        have hboth := hscheduled.sorted.and (List.pairwise_map.1 hseq)
        refine (hboth.sublist List.filter_sublist).imp fun {a b} hab => ?_
        have hbefore := Timer.before_iff.1 hab.1
        have hne := hab.2
        omega
      callbackQueue_eq := ⟨engine.waitingFor (engine.dueBy moment), engine.waitingFor_subset _,
        hscheduled.map_id_waitingFor hdue, rfl⟩
      pendingAsync_eq := rfl
      timers_eq := rfl
      callStack_eq := rfl
      deferredQueue_eq := rfl
      inFlight_eq := rfl
      finished_eq := rfl
      nextId_eq := rfl
      nextTimer_eq := rfl
      advanceTimer_ok := fun _ _ _ hsplit => h.advanceTimer_ok hsplit }

/-- **A move of the clock calls the tasks that it reaches**, in the order in
which their timers elapse, and does nothing else, in every state that a run
reaches.  Some milliseconds lead to the moment that lies so far ahead, or to the
horizon; a moment leads there, if it lies ahead, and not beyond the horizon. -/
theorem movesTo_of_run (capacity : Nat) (operations : List Operation) (ms moment : Nat) :
    let engine := ((withTraceCapacity capacity).performAll operations).2
    engine.MovesTo (min horizon (engine.now + ms)) (engine.advanceClock ms) ∧
      engine.MovesTo (max engine.now (min horizon moment)) (engine.advanceClockTo moment) := by
  have hsound := sound_of_run capacity operations
  have hseq := (followed_of_run capacity operations).seq_nodup
  exact ⟨hsound.movesTo hseq _, hsound.movesTo hseq _⟩

end Engine

end EventLoop
