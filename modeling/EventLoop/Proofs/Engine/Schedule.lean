import EventLoop.Proofs.Engine.Partition
import Mathlib.Data.List.TakeWhile

/-!
# Timers and pending tasks

The schedule has one timer for each pending task, in the order in which they
elapse, and the numbers of the timers grow with the ids of their tasks
(`Scheduled`).  Between operations the timers of the schedule are meant.  While
due timers are being released, those that are still to be released are no
longer in the schedule although their tasks are still pending; the invariant
is therefore stated of any list of timers, and `release` is followed one timer
at a time.

A consequence is that the release of due timers never fails: every timer finds
its task (`advanceTimer_popped`).
-/

namespace EventLoop

/-! ## Lists in the order of a key -/

/-- In a list ordered by a key, what is left after dropping the small keys has
large keys only. -/
theorem lt_of_mem_dropWhile {α : Type} {key : α → Nat} {bound : Nat} {list : List α}
    (hsorted : list.Pairwise fun a b => key a ≤ key b) {a : α}
    (ha : a ∈ list.dropWhile fun a => key a ≤ bound) : bound < key a := by
  induction list with
  | nil => simp at ha
  | cons first rest ih =>
      obtain ⟨hfirst, hrest⟩ := List.pairwise_cons.1 hsorted
      by_cases hle : key first ≤ bound
      · rw [List.dropWhile_cons_of_pos (by simpa using hle)] at ha
        exact ih hrest ha
      · rw [List.dropWhile_cons_of_neg (by simpa using hle)] at ha
        rcases List.mem_cons.1 ha with rfl | ha
        · omega
        · have := hfirst a ha
          omega

/-- Putting an element behind the smaller keys and before the larger ones keeps
the order of a list. -/
theorem pairwise_insert {α : Type} {r : α → α → Prop} {key : α → Nat} {a : α} {list : List α}
    (hsorted : list.Pairwise r) (hkey : ∀ b c, r b c → key b ≤ key c)
    (hbefore : ∀ b ∈ list, key b ≤ key a → r b a) (hafter : ∀ b ∈ list, key a < key b → r a b) :
    (list.takeWhile (key · ≤ key a) ++ a :: list.dropWhile (key · ≤ key a)).Pairwise r := by
  have hsplit := hsorted
  rw [← List.takeWhile_append_dropWhile (p := (key · ≤ key a)) (l := list),
    List.pairwise_append] at hsplit
  obtain ⟨htake, hdrop, hcross⟩ := hsplit
  have hsmall : ∀ b ∈ list.takeWhile (key · ≤ key a), r b a := fun b hb =>
    hbefore b (List.takeWhile_sublist _ |>.subset hb) (by simpa using List.mem_takeWhile_imp hb)
  have hlarge : ∀ b ∈ list.dropWhile (key · ≤ key a), r a b := fun b hb =>
    hafter b (List.dropWhile_sublist _ |>.subset hb)
      (lt_of_mem_dropWhile (hsorted.imp fun {b c} h => hkey b c h) hb)
  refine List.pairwise_append.2 ⟨htake, List.pairwise_cons.2 ⟨hlarge, hdrop⟩, ?_⟩
  intro b hb c hc
  rcases List.mem_cons.1 hc with rfl | hc
  · exact hsmall b hb
  · exact hcross b hb c hc

theorem perm_insert {α : Type} (p : α → Bool) (a : α) (list : List α) :
    (list.takeWhile p ++ a :: list.dropWhile p).Perm (a :: list) := by
  refine List.perm_middle.trans (List.Perm.cons a ?_)
  rw [List.takeWhile_append_dropWhile]

/-! ## Timers in the order in which they elapse -/

namespace Timer

theorem before_iff {a b : Timer} :
    a.before b = true ↔ a.dueAt < b.dueAt ∨
      a.dueAt = b.dueAt ∧ (a.seq < b.seq ∨ a.seq = b.seq ∧ a.taskId < b.taskId) := by
  simp [before]

theorem dueAt_le_of_before {a b : Timer} (h : a.before b = true) : a.dueAt ≤ b.dueAt := by
  have := before_iff.1 h
  omega

end Timer

namespace Timers

/-- A timer with a number above all others goes behind all timers that are due
no later. -/
theorem insertTimer_eq (timer : Timer) {timers : List Timer}
    (h : ∀ other ∈ timers, other.seq < timer.seq) :
    insertTimer timer timers =
      timers.takeWhile (·.dueAt ≤ timer.dueAt) ++
        timer :: timers.dropWhile (·.dueAt ≤ timer.dueAt) := by
  induction timers with
  | nil => rfl
  | cons first rest ih =>
      have hseq := h first List.mem_cons_self
      have hrest := ih fun other hother => h other (List.mem_cons_of_mem _ hother)
      by_cases hle : first.dueAt ≤ timer.dueAt
      · have hnot : ¬ timer.before first = true := by
          rw [Timer.before_iff]
          omega
        have hbefore : first.before timer = true := by
          rw [Timer.before_iff]
          omega
        simp [insertTimer, hnot, hbefore, hle, hrest]
      · have hbefore : timer.before first = true := by
          rw [Timer.before_iff]
          omega
        simp [insertTimer, hbefore, hle]

theorem popDue_append (timers : Timers) (now : Nat) :
    (timers.popDue now).1 ++ (timers.popDue now).2.entries = timers.entries :=
  List.takeWhile_append_dropWhile

end Timers

namespace Engine

/-- The timers are those of the pending tasks, in the order in which they
elapse. -/
structure Scheduled (engine : Engine) (timers : List Timer) : Prop where
  ids_perm : (timers.map Timer.taskId).Perm (engine.queues.pendingAsync.map Task.id)
  sorted : timers.Pairwise fun a b => a.before b
  seq_lt : ∀ timer ∈ timers, timer.seq < engine.clock.nextTimer
  increasing : ∀ a ∈ timers, ∀ b ∈ timers, a.seq < b.seq → a.taskId < b.taskId

namespace Scheduled

variable {engine next : Engine} {timers : List Timer} {ids : List Nat}

theorem nodup (h : engine.Scheduled timers) (hplaced : engine.Placed ids) :
    (timers.map Timer.taskId).Nodup := by
  refine h.ids_perm.nodup_iff.2 (List.Sublist.nodup ?_ hplaced.nodup)
  refine List.Sublist.map _ ?_
  have hall : engine.tasks = engine.queues.callStack ++ (engine.queues.pendingAsync ++
      (engine.queues.callbackQueue ++ (engine.queues.deferredQueue ++
        (engine.inFlight ++ engine.finished)))) := by
    simp [tasks, Place.all, tasksAt, Queues.get]
  rw [hall]
  exact (List.sublist_append_left _ _).trans (List.sublist_append_right _ _)

/-- The invariant is about the pending tasks and the timer numbers only. -/
theorem congr (h : engine.Scheduled timers)
    (hpending : next.queues.pendingAsync = engine.queues.pendingAsync)
    (hclock : next.clock.nextTimer = engine.clock.nextTimer) : next.Scheduled timers :=
  ⟨hpending ▸ h.ids_perm, h.sorted, hclock ▸ h.seq_lt, h.increasing⟩

/-- A pending task leaves together with its timer. -/
theorem remove (h : engine.Scheduled timers) {before after : List Task} {task : Task}
    {earlier later : List Timer} {timer : Timer} (htimers : timers = earlier ++ timer :: later)
    (hpending : engine.queues.pendingAsync = before ++ task :: after)
    (hid : timer.taskId = task.id) (hnext : next.queues.pendingAsync = before ++ after)
    (hclock : next.clock.nextTimer = engine.clock.nextTimer) :
    next.Scheduled (earlier ++ later) := by
  have hsublist : (earlier ++ later).Sublist timers := by
    rw [htimers]
    exact (List.Sublist.refl earlier).append (List.sublist_cons_self timer later)
  refine ⟨?_, h.sorted.sublist hsublist, fun other hother => ?_, fun a ha b hb => ?_⟩
  · have hperm := h.ids_perm
    rw [htimers, hpending, List.map_append, List.map_cons, List.map_append, List.map_cons,
      hid] at hperm
    rw [hnext, List.map_append, List.map_append]
    exact (List.perm_cons _).1 (List.perm_middle.symm.trans (hperm.trans List.perm_middle))
  · rw [hclock]
    exact h.seq_lt other (hsublist.subset hother)
  · exact h.increasing a (hsublist.subset ha) b (hsublist.subset hb)

theorem exists_timer (h : engine.Scheduled timers) {task : Task}
    (htask : task ∈ engine.queues.pendingAsync) :
    ∃ earlier timer later, timers = earlier ++ timer :: later ∧ timer.taskId = task.id ∧
      timers.eraseP (·.taskId = task.id) = earlier ++ later := by
  have hmem : task.id ∈ timers.map Timer.taskId :=
    h.ids_perm.mem_iff.2 (List.mem_map_of_mem htask)
  obtain ⟨witness, hwitness, hid⟩ := List.mem_map.1 hmem
  obtain ⟨timer, earlier, later, -, htimer, hsplit, herase⟩ :=
    List.exists_of_eraseP (p := (·.taskId = task.id)) hwitness (by simpa using hid)
  exact ⟨earlier, timer, later, hsplit, by simpa using htimer, herase⟩

theorem exists_task (h : engine.Scheduled timers) {timer : Timer} (htimer : timer ∈ timers) :
    ∃ task ∈ engine.queues.pendingAsync, task.id = timer.taskId :=
  List.mem_map.1 (h.ids_perm.mem_iff.1 (List.mem_map_of_mem htimer))

theorem taskId_lt (h : engine.Scheduled timers) (hplaced : engine.Placed ids) {timer : Timer}
    (htimer : timer ∈ timers) : timer.taskId < engine.nextId := by
  obtain ⟨task, htask, hid⟩ := h.exists_task htimer
  have hmem : task.id ∈ engine.tasks.map Task.id :=
    List.mem_map_of_mem (mem_tasks.2 ⟨.queued .pendingAsync, htask⟩)
  exact hid ▸ hplaced.lt_nextId _ (hplaced.ids_perm.mem_iff.1 hmem)

/-! ## Operations on tasks -/

protected theorem submit (h : engine.Scheduled engine.timers.entries) (hplaced : engine.Placed ids)
    (step : Step) :
    (engine.submit step).2.Scheduled (engine.submit step).2.timers.entries := by
  have hpending := tasksAt_submit engine step (.queued .pendingAsync)
  by_cases htarget : step.targetQueue = .pendingAsync
  · rw [if_pos (by rw [htarget])] at hpending
    have hclock := submit_nextTimer engine step
    have htimers := submit_timers engine step
    rw [if_pos htarget] at hclock htimers
    have hentries := Timers.insertTimer_eq
      ⟨later engine.now step.delayMs, engine.clock.nextTimer, engine.nextId⟩ h.seq_lt
    rw [htimers, Timers.schedule, hentries]
    have hperm := perm_insert (·.dueAt ≤ later engine.now step.delayMs)
      (⟨later engine.now step.delayMs, engine.clock.nextTimer, engine.nextId⟩ : Timer)
      engine.timers.entries
    refine ⟨?_, ?_, fun timer htimer => ?_, fun a ha b hb hseq => ?_⟩
    · -- the new timer is that of the new task
      have hids := (hperm.map Timer.taskId).trans (h.ids_perm.cons engine.nextId)
      refine hids.trans ?_
      have hconcat : (engine.submit step).2.queues.pendingAsync =
          engine.queues.pendingAsync ++ [Task.ofStep engine.nextId step] := hpending
      rw [hconcat, List.map_append]
      exact (List.perm_append_singleton _ _).symm
    · -- it is the last one of those that are due at its moment
      refine pairwise_insert h.sorted (fun _ _ => Timer.dueAt_le_of_before) ?_ ?_
      · intro other hother hle
        have := h.seq_lt other hother
        rw [Timer.before_iff]
        dsimp only at hle ⊢
        omega
      · intro other _ hlt
        rw [Timer.before_iff]
        exact .inl hlt
    · rw [hclock]
      rcases List.mem_cons.1 (hperm.mem_iff.1 htimer) with rfl | hmem
      · exact Nat.lt_succ_self _
      · exact Nat.lt_succ_of_lt (h.seq_lt timer hmem)
    · rcases List.mem_cons.1 (hperm.mem_iff.1 ha) with rfl | hmema <;>
        rcases List.mem_cons.1 (hperm.mem_iff.1 hb) with rfl | hmemb
      · exact absurd hseq (Nat.lt_irrefl _)
      · exact absurd (h.seq_lt b hmemb) (Nat.lt_asymm hseq)
      · exact h.taskId_lt hplaced hmema
      · exact h.increasing a hmema b hmemb hseq
  · rw [if_neg (by simpa using Ne.symm htarget)] at hpending
    rw [submit_timers, if_neg htarget]
    refine h.congr hpending ?_
    rw [submit_nextTimer, if_neg htarget]

/-- Tasks that are ready are not pending ones. -/
theorem modify_pendingAsync {queue : Queue} (hqueue : queue ≠ .pendingAsync)
    (change : List Task → List Task) :
    (engine.queues.modify queue change).pendingAsync = engine.queues.pendingAsync :=
  Queues.get_modify_of_ne engine.queues change hqueue.symm

protected theorem start (h : engine.Scheduled timers) (hplaced : engine.Placed ids) (id : Nat) :
    (engine.start id).2.Scheduled timers := by
  rcases engine.queues.absent_or_found id with habsent | ⟨queue, before, task, after, hfound⟩
  · rw [start_absent habsent]
    exact h.congr rfl rfl
  · rw [start_found hfound]
    split
    · rename_i hstatus
      -- a pending task waits, and only what is pending is started
      have hqueue : queue ≠ .pendingAsync := by
        intro heq
        have hholds := (hplaced.holds (.queued queue) task hfound.mem).1.2
        rw [heq, hstatus] at hholds
        contradiction
      exact h.congr (modify_pendingAsync hqueue _) rfl
    · exact h.congr rfl rfl

protected theorem fail (h : engine.Scheduled engine.timers.entries) (id : Nat) (reason : String) :
    (engine.fail id reason).2.Scheduled (engine.fail id reason).2.timers.entries := by
  cases hfind : engine.inFlight.find? (·.id = id) with
  | some task =>
      rw [fail_executing hfind]
      exact h.congr rfl rfl
  | none =>
      rcases engine.queues.absent_or_found id with habsent | ⟨queue, before, task, after, hfound⟩
      · rw [fail_absent hfind habsent]
        exact h.congr rfl rfl
      · rw [fail_found hfind hfound]
        by_cases hqueue : queue = .pendingAsync
        · subst hqueue
          obtain ⟨earlier, timer, later, hsplit, hid, herase⟩ := h.exists_timer hfound.mem
          rw [hfound.id_eq] at herase
          rw [if_pos rfl]
          have hremove : ({ engine with
              queues := engine.queues.modify .pendingAsync fun _ => before ++ after
              timers := engine.timers.cancel id }.fileFailure task reason).2.Scheduled
                (earlier ++ later) := h.remove hsplit hfound.get_eq hid rfl rfl
          rw [← herase] at hremove
          exact hremove
        · rw [if_neg hqueue]
          exact h.congr (modify_pendingAsync hqueue _) rfl

/-! ## Release -/

/-- A timer that has been taken from the schedule finds its task, which goes to
the callback queue. -/
theorem advanceTimer_popped {timer : Timer} (h : engine.Scheduled (timer :: timers))
    (hplaced : engine.Placed ids) (hsuffix : engine.timers.entries.Sublist timers) :
    ∃ before task after, engine.queues.Found timer.taskId .pendingAsync before task after ∧
      engine.advanceTimer timer.taskId =
        (.ok (), { engine.record timer.taskId .timerElapsed
            (arrival task.description .callbackQueue) with
          queues := (engine.queues.modify .pendingAsync fun _ => before ++ after).push
            { task with status := .pending, queue := .callbackQueue } }) := by
  obtain ⟨task, htask, hid⟩ := h.exists_task List.mem_cons_self
  have hqueued : task ∈ engine.queues.get .pendingAsync := htask
  obtain ⟨before, after, hfound⟩ := hplaced.found hqueued
  rw [hid] at hfound
  refine ⟨before, task, after, hfound, ?_⟩
  have hnotin : timer.taskId ∉ timers.map Timer.taskId :=
    (List.nodup_cons.1 (h.nodup hplaced)).1
  -- the timer has left the schedule, so that nothing is cancelled
  have hcancel : engine.timers.cancel timer.taskId = engine.timers := by
    refine congrArg Timers.mk (List.eraseP_of_forall_not fun other hother heq => hnotin ?_)
    exact List.mem_map.2 ⟨other, hsuffix.subset hother, by simpa using heq⟩
  rw [advanceTimer_found hfound, hcancel]
  rfl

end Scheduled

/-! ## The clock -/

theorem clock_start (engine : Engine) (id : Nat) : (engine.start id).2.clock = engine.clock := by
  unfold start
  split
  · rfl
  · split <;> rfl

theorem clock_fail (engine : Engine) (id : Nat) (reason : String) :
    (engine.fail id reason).2.clock = engine.clock := by
  unfold fail
  split
  · rfl
  · split <;> rfl

theorem clock_advanceTimer (engine : Engine) (id : Nat) :
    (engine.advanceTimer id).2.clock = engine.clock := by
  unfold advanceTimer
  split <;> rfl

theorem clock_release (timers : List Timer) :
    ∀ engine : Engine, (engine.release timers).2.clock = engine.clock := by
  induction timers with
  | nil => exact fun _ => rfl
  | cons timer rest ih =>
      exact fun engine => (ih _).trans (clock_advanceTimer engine timer.taskId)

theorem now_advanceClock (engine : Engine) (ms : Nat) :
    (engine.advanceClock ms).2.now = later engine.now ms :=
  congrArg Clock.now (clock_release _ _)

theorem now_advanceClockTo (engine : Engine) (moment : Nat) :
    (engine.advanceClockTo moment).2.now = max engine.now (min horizon moment) :=
  congrArg Clock.now (clock_release _ _)

end Engine

end EventLoop
