import EventLoop.Proofs.Engine.Turn

/-!
# Pending tasks and their timers

The schedule and the container of pending tasks are two structures that five
operations have to keep in step.  `InStep` says what that means after the turns
of a run: the timers are those of the pending tasks, each is due at the moment
that its submission set, and none is overdue.

As a timer leaves the schedule together with its task, no task is called twice,
and none is called after it has failed.  This does not depend on how its timer
elapses: a task that has left the stage of the pending tasks does not come
back to it.
-/

namespace EventLoop

namespace Engine

/-- The schedule of an engine agrees with its pending tasks, after the given
turns. -/
structure InStep (engine : Engine) (turns : List Turn) : Prop where
  /-- The timers are those of the pending tasks, and each of these has one. -/
  ids_perm :
    (engine.timers.entries.map Timer.taskId).Perm (engine.idsAt (.queued .pendingAsync))
  ids_nodup : (engine.timers.entries.map Timer.taskId).Nodup
  /-- A timer is due when the delay of its task has passed since the task was
  submitted, or at the last moment of virtual time. -/
  dueAt_eq : ∀ timer ∈ engine.timers.entries, ∃ task ∈ engine.queues.pendingAsync,
    task.id = timer.taskId ∧ ∃ turn ∈ turns, turn.answer = .submitted task ∧
      timer.dueAt = later turn.before.now task.delayMs
  now_le_dueAt : ∀ timer ∈ engine.timers.entries, engine.now ≤ timer.dueAt
  /-- The numbers of the timers are distinct and in the order of the tasks. -/
  seq_nodup : (engine.timers.entries.map Timer.seq).Nodup
  seq_lt_iff : ∀ a ∈ engine.timers.entries, ∀ b ∈ engine.timers.entries,
    a.seq < b.seq ↔ a.taskId < b.taskId

/-! ## Due times -/

/-- Every timer is due at the moment that the submission of its task set. -/
private def Dated (turns : List Turn) (engine : Engine) : Prop :=
  ∀ timer ∈ engine.timers.entries, ∃ task ∈ engine.queues.pendingAsync,
    task.id = timer.taskId ∧ ∃ turn ∈ turns, turn.answer = .submitted task ∧
      timer.dueAt = later turn.before.now task.delayMs

private theorem dated_submit {turns : List Turn} {engine : Engine} (hsound : engine.Sound)
    (h : Dated turns engine) (step : Step) :
    Dated (turns ++ [⟨engine, .submit step⟩]) (engine.submit step).2 := by
  have hpending := tasksAt_submit engine step (.queued .pendingAsync)
  have hentries := submit_timers engine step
  -- the timers from before are due as before, and their tasks stay
  have hold : ∀ timer ∈ engine.timers.entries,
      ∃ task ∈ (engine.submit step).2.queues.pendingAsync, task.id = timer.taskId ∧
        ∃ turn ∈ turns ++ [⟨engine, .submit step⟩], turn.answer = .submitted task ∧
          timer.dueAt = later turn.before.now task.delayMs := by
    intro timer htimer
    obtain ⟨task, htask, hid, turn, hturn, hdue⟩ := h timer htimer
    refine ⟨task, ?_, hid, turn, List.mem_append_left _ hturn, hdue⟩
    have hmem : task ∈ (engine.submit step).2.tasksAt (.queued .pendingAsync) := by
      rw [hpending]
      split
      · exact List.mem_append_left _ htask
      · exact htask
    exact hmem
  by_cases htarget : step.targetQueue = .pendingAsync
  · rw [if_pos htarget] at hentries
    rw [if_pos (by rw [htarget])] at hpending
    intro timer htimer
    rw [hentries, Timers.schedule, Timers.insertTimer_eq _ hsound.timed.scheduled.seq_lt] at htimer
    rcases List.mem_cons.1 ((perm_insert _ _ _).mem_iff.1 htimer) with rfl | hmem
    · have hnew : Task.ofStep engine.nextId step ∈
          (engine.submit step).2.tasksAt (.queued .pendingAsync) := by
        rw [hpending]
        exact List.mem_append_right _ List.mem_cons_self
      exact ⟨_, hnew, rfl, ⟨engine, .submit step⟩, by simp, rfl, rfl⟩
    · exact hold timer hmem
  · rw [if_neg htarget] at hentries
    rw [Dated, hentries]
    exact hold

private theorem dated_after {turns : List Turn} {turn : Turn} (hsound : turn.before.Sound)
    (h : Dated turns turn.before) : Dated (turns ++ [turn]) turn.after := by
  by_cases hsubmit : ∃ step, turn.operation = .submit step
  · obtain ⟨engine, operation⟩ := turn
    obtain ⟨step, rfl⟩ := hsubmit
    exact dated_submit hsound h step
  · push Not at hsubmit
    have hwanes : turn.before.Wanes turn.after := .perform turn.before hsubmit
    obtain ⟨ids, hplaced⟩ := hsound.placed
    intro timer htimer
    obtain ⟨task, htask, hid, earlier, hearlier, hdue⟩ :=
      h timer (hwanes.timers.subset htimer)
    -- the task of the timer is still there, and it is the one from before
    obtain ⟨other, hother, heq⟩ := hsound.after.timed.scheduled.exists_task htimer
    obtain ⟨rfl, -⟩ := hplaced.eq_of_id_eq (.queued .pendingAsync) (.queued .pendingAsync)
      (hwanes.pending.subset hother) htask (heq.trans hid.symm)
    exact ⟨other, hother, heq, earlier, List.mem_append_left _ hearlier, hdue⟩

/-! ## Numbers -/

private theorem seq_nodup_after {turn : Turn} (hsound : turn.before.Sound)
    (h : (turn.before.timers.entries.map Timer.seq).Nodup) :
    (turn.after.timers.entries.map Timer.seq).Nodup := by
  by_cases hsubmit : ∃ step, turn.operation = .submit step
  · obtain ⟨engine, operation⟩ := turn
    obtain ⟨step, rfl⟩ := hsubmit
    have hentries : (⟨engine, .submit step⟩ : Turn).after.timers = _ := submit_timers engine step
    have hlt := hsound.timed.scheduled.seq_lt
    rw [hentries]
    split
    · rw [Timers.schedule, Timers.insertTimer_eq _ hlt]
      refine ((perm_insert _ _ _).map Timer.seq).nodup_iff.2 (List.nodup_cons.2 ⟨?_, h⟩)
      -- the new number is above all others
      intro hmem
      obtain ⟨timer, htimer, heq⟩ := List.mem_map.1 hmem
      exact absurd heq (hlt timer htimer).ne
    · exact h
  · push Not at hsubmit
    have hwanes : turn.before.Wanes turn.after := .perform turn.before hsubmit
    exact h.sublist (hwanes.timers.map Timer.seq)

/-- Timers with distinct numbers are in the order of their tasks. -/
private theorem seq_lt_iff_of_nodup {engine : Engine} {timers : List Timer}
    (h : engine.Scheduled timers) (hnodup : (timers.map Timer.seq).Nodup) {a b : Timer}
    (ha : a ∈ timers) (hb : b ∈ timers) : a.seq < b.seq ↔ a.taskId < b.taskId := by
  constructor
  · exact h.increasing a ha b hb
  · intro hlt
    rcases Nat.lt_trichotomy a.seq b.seq with hseq | hseq | hseq
    · exact hseq
    · obtain rfl : a = b := List.inj_on_of_nodup_map hnodup ha hb hseq
      exact absurd hlt (Nat.lt_irrefl _)
    · exact absurd (h.increasing b hb a ha hseq) (Nat.lt_asymm hlt)

/-! ## Calls -/

/-- A task that has failed has ended. -/
theorem Turn.past_of_fails {turn : Turn} (h : turn.before.Sound) {id : Nat}
    (hfails : turn.Fails id) : turn.after.Past id Place.finished.stage := by
  obtain ⟨engine, operation⟩ := turn
  obtain ⟨reason, task, rfl, hanswer⟩ := hfails
  obtain ⟨ids, hplaced⟩ := h.after.placed
  have hok : (engine.fail id reason).1 = .ok task := Answer.moved.inj hanswer
  refine hplaced.past (?_ : id ∈ (engine.fail id reason).2.idsAt .finished)
  cases hfind : engine.inFlight.find? (·.id = id) with
  | some found =>
      have hid : found.id = id := by simpa using List.find?_some hfind
      rw [fail_executing hfind]
      simp [idsAt, tasksAt, fileFailure, hid]
  | none =>
      rcases engine.queues.absent_or_found id with habsent | ⟨queue, before, found, after, hfound⟩
      · rw [fail_absent hfind habsent] at hok
        contradiction
      · rw [fail_found hfind hfound]
        simp [idsAt, tasksAt, fileFailure, hfound.id_eq]

/-- What the turns of a run leave behind: the timers as they were entered, and
the tasks that were called or failed past the pending ones. -/
structure Followed (turns : List Turn) (engine : Engine) : Prop where
  dated : Dated turns engine
  seq_nodup : (engine.timers.entries.map Timer.seq).Nodup
  arrivals_nodup : (arrivals .callbackQueue turns).Nodup
  arrivals_past : ∀ id ∈ arrivals .callbackQueue turns, engine.Past id 1
  fails_apart : turns.Pairwise fun earlier later =>
    ∀ id, earlier.Fails id → id ∉ later.arrivals .callbackQueue
  fails_past : ∀ turn ∈ turns, ∀ id, turn.Fails id → engine.Past id 1

theorem Followed.after {turns : List Turn} {turn : Turn} (hsound : turn.before.Sound)
    (h : Followed turns turn.before) : Followed (turns ++ [turn]) turn.after := by
  have hagain : ∀ id, turn.before.Past id 1 → id ∉ turn.arrivals .callbackQueue :=
    fun id hpast => Turn.not_mem_arrivals_of_past hsound hpast
  refine ⟨dated_after hsound h.dated, seq_nodup_after hsound h.seq_nodup, ?_, ?_, ?_, ?_⟩
  · rw [arrivals_concat]
    refine List.nodup_append.2 ⟨h.arrivals_nodup, Turn.nodup_arrivals hsound _, ?_⟩
    rintro id hid other hother rfl
    exact hagain id (h.arrivals_past id hid) hother
  · intro id hid
    rw [arrivals_concat, List.mem_append] at hid
    rcases hid with hold | hnew
    · exact (h.arrivals_past id hold).onward hsound.onward
    · exact Turn.past_of_mem_arrivals hsound hnew
  · refine List.pairwise_append.2 ⟨h.fails_apart, List.pairwise_singleton _ _, ?_⟩
    intro earlier hearlier last hlast id hfails
    rw [List.mem_singleton.1 hlast]
    exact hagain id (h.fails_past earlier hearlier id hfails)
  · intro other hother id hfails
    rcases List.mem_append.1 hother with hold | hnew
    · exact (h.fails_past other hold id hfails).onward hsound.onward
    · rw [List.mem_singleton.1 hnew] at hfails
      exact (Turn.past_of_fails hsound hfails).of_le (by decide)

theorem followed_of_run (capacity : Nat) (operations : List Operation) :
    Followed ((withTraceCapacity capacity).turns operations)
      ((withTraceCapacity capacity).performAll operations).2 := by
  refine turns_induction ?_ (fun turns turn hsound h => h.after hsound) operations
  exact ⟨by simp [Dated, withTraceCapacity, Timers.empty],
    by simp [withTraceCapacity, Timers.empty], by simp [arrivals], by simp [arrivals], .nil,
    by simp⟩

/-- **The schedule and the pending tasks stay in step** in every state that a
run reaches.  Over the whole run, resets included, each task enters the
callback queue at most once, and never after it was failed. -/
theorem inStep_of_run (capacity : Nat) (operations : List Operation) :
    let turns := (withTraceCapacity capacity).turns operations
    ((withTraceCapacity capacity).performAll operations).2.InStep turns ∧
      (arrivals .callbackQueue turns).Nodup ∧
        turns.Pairwise fun earlier later =>
          ∀ id, earlier.Fails id → id ∉ later.arrivals .callbackQueue := by
  have hfollowed := followed_of_run capacity operations
  obtain ⟨⟨ids, hplaced⟩, htimed⟩ := sound_of_run capacity operations
  have hscheduled := htimed.scheduled
  refine ⟨?_, hfollowed.arrivals_nodup, hfollowed.fails_apart⟩
  exact
    { ids_perm := hscheduled.ids_perm
      ids_nodup := hscheduled.nodup hplaced
      dueAt_eq := hfollowed.dated
      now_le_dueAt := htimed.now_le_dueAt
      seq_nodup := hfollowed.seq_nodup
      seq_lt_iff := fun a ha b hb => seq_lt_iff_of_nodup hscheduled hfollowed.seq_nodup ha hb }

end Engine

end EventLoop
