import EventLoop.Proofs.Engine.Turn

/-!
# How containers change

A turn changes a container in one of three ways.  It takes one id out of it
(`idsAt_of_take`), it empties it (`idsAt_of_reset`), or it adds to its end
(`idsAt_of_gain`).  What is added are submissions, but for the callback queue,
which also gets the tasks whose timers elapse, in the order in which a call on
the clock reports them.
-/

namespace EventLoop

namespace Engine

variable {engine : Engine} {ids : List Nat} {turn : Turn} {queue : Queue}

/-! ## What an operation does to a container -/

/-- The ids that a turn submits to a container. -/
def Turn.submitted (queue : Queue) (turn : Turn) : List Nat :=
  match turn.answer with
  | .submitted task => if task.queue = queue then [task.id] else []
  | _ => []

/-- An operation that takes a task out of a container. -/
def Operation.takes? : Operation → Option Nat
  | .start id | .fail id _ => some id
  | _ => none

/-- A task that is taken from its container leaves the others where they are. -/
private theorem ids_modify_found (hplaced : engine.Placed ids) {id : Nat} {source : Queue}
    {before after : List Task} {task : Task}
    (h : engine.queues.Found id source before task after) (queue : Queue) :
    ((engine.queues.modify source fun _ => before ++ after).get queue).map Task.id =
      (engine.idsAt (.queued queue)).erase id := by
  have hmem := mem_idsAt_of_found h
  by_cases hqueue : queue = source
  · subst hqueue
    have hbefore : id ∉ before.map Task.id := by
      simpa using h.ne_of_mem_before
    rw [Queues.get_modify_self, idsAt, tasksAt, h.get_eq, List.map_append, List.map_append,
      List.erase_append_right _ hbefore, List.map_cons, h.id_eq, List.erase_cons_head]
  · rw [Queues.get_modify_of_ne _ _ hqueue, List.erase_of_not_mem]
    · rfl
    · intro hother
      have hplace := hplaced.place_eq hother hmem
      exact hqueue (Place.queued.inj hplace)

private theorem idsAt_start (hplaced : engine.Placed ids) (id : Nat)
    (hqueue : queue ≠ .pendingAsync) :
    (engine.start id).2.idsAt (.queued queue) = (engine.idsAt (.queued queue)).erase id := by
  rcases engine.queues.absent_or_found id with habsent | ⟨source, before, task, after, hfound⟩
  · rw [start_absent habsent, List.erase_of_not_mem (not_mem_idsAt_of_absent habsent queue)]
    rfl
  · rw [start_found hfound]
    split
    · exact ids_modify_found hplaced hfound queue
    · rename_i hstatus
      -- a task that cannot be started waits, and so it is not in this container
      have hsource : source = .pendingAsync := by
        have hholds := (hplaced.holds (.queued source) task hfound.mem).1.2
        cases source <;> simp_all [Queue.status]
      rw [List.erase_of_not_mem]
      · rfl
      · intro hmem
        have hplace := hplaced.place_eq hmem (mem_idsAt_of_found hfound)
        exact hqueue ((Place.queued.inj hplace).trans hsource)

private theorem idsAt_fail (hplaced : engine.Placed ids) (id : Nat) (reason : String)
    (queue : Queue) :
    (engine.fail id reason).2.idsAt (.queued queue) = (engine.idsAt (.queued queue)).erase id := by
  cases hfind : engine.inFlight.find? (·.id = id) with
  | some task =>
      have hflight := mem_idsAt_of_find? hfind
      rw [fail_executing hfind, List.erase_of_not_mem]
      · rfl
      · intro hmem
        have hplace := hplaced.place_eq hmem hflight
        contradiction
  | none =>
      rcases engine.queues.absent_or_found id with habsent | ⟨source, before, task, after, hfound⟩
      · rw [fail_absent hfind habsent,
          List.erase_of_not_mem (not_mem_idsAt_of_absent habsent queue)]
        rfl
      · rw [fail_found hfind hfound]
        exact ids_modify_found hplaced hfound queue

/-- A timer that elapses adds its task to the callback queue, and to no other. -/
private theorem idsAt_advanceTimer (engine : Engine) (id : Nat) (hqueue : queue ≠ .pendingAsync) :
    (engine.advanceTimer id).2.idsAt (.queued queue) = engine.idsAt (.queued queue) ++
      if queue = .callbackQueue then
        match (engine.advanceTimer id).1 with
        | .ok () => [id]
        | .error _ => []
      else [] := by
  obtain ⟨before, task, after, hfound⟩ | helsewhere :=
    engine.queues.found_or_elsewhere id .pendingAsync
  · rw [advanceTimer_found hfound]
    simp only [idsAt, tasksAt, Queues.get_push, Queues.get_modify_of_ne _ _ hqueue]
    split <;> simp [hfound.id_eq]
  · rw [advanceTimer_elsewhere helsewhere]
    show engine.idsAt (.queued queue) = engine.idsAt (.queued queue) ++
      if queue = .callbackQueue then [] else []
    rw [ite_self, List.append_nil]

/-- Timers that are released call their tasks in the order that is reported. -/
private theorem idsAt_release (timers : List Timer) (hqueue : queue ≠ .pendingAsync) :
    ∀ engine : Engine, (engine.release timers).2.idsAt (.queued queue) =
      engine.idsAt (.queued queue) ++
        if queue = .callbackQueue then (engine.release timers).1 else [] := by
  induction timers with
  | nil => exact fun engine => by simp [release]
  | cons timer rest ih =>
      intro engine
      simp only [release]
      rw [ih, idsAt_advanceTimer engine timer.taskId hqueue, List.append_assoc]
      by_cases hcallback : queue = .callbackQueue
      · simp only [if_pos hcallback]
        cases (engine.advanceTimer timer.taskId).1 <;> rfl
      · simp only [if_neg hcallback, List.append_nil]

/-- An operation that takes nothing out of a container adds to its end; only
the callback queue gains what was not submitted to it. -/
theorem idsAt_of_gain (hqueue : queue ≠ .pendingAsync) (htakes : turn.operation.takes? = none)
    (hreset : turn.operation ≠ .reset) :
    ∃ gained, turn.after.idsAt (.queued queue) = turn.before.idsAt (.queued queue) ++ gained ∧
      (queue ≠ .callbackQueue → gained = turn.submitted queue) := by
  obtain ⟨engine, operation⟩ := turn
  cases operation with
  | submit step =>
      refine ⟨(⟨engine, .submit step⟩ : Turn).submitted queue, ?_, fun _ => rfl⟩
      show (engine.submit step).2.idsAt (.queued queue) = engine.idsAt (.queued queue) ++
        if step.targetQueue = queue then [engine.nextId] else []
      rw [idsAt, tasksAt_submit]
      by_cases htarget : step.targetQueue = queue
      · simp [htarget, idsAt, Task.ofStep]
      · simp [htarget, Ne.symm htarget, idsAt]
  | complete id =>
      refine ⟨[], ?_, fun _ => rfl⟩
      show (engine.complete id).2.idsAt (.queued queue) = engine.idsAt (.queued queue) ++ []
      simp [idsAt, tasksAt, (complete_frame engine id).2.2]
  | advanceTimer id => exact ⟨_, idsAt_advanceTimer engine id hqueue, fun hne => if_neg hne⟩
  | advanceClock ms => exact ⟨_, idsAt_release _ hqueue _, fun hne => if_neg hne⟩
  | advanceClockTo moment => exact ⟨_, idsAt_release _ hqueue _, fun hne => if_neg hne⟩
  | start id => contradiction
  | fail id reason => contradiction
  | reset => exact absurd rfl hreset

theorem idsAt_of_take (hsound : turn.before.Sound) (hqueue : queue ≠ .pendingAsync) {id : Nat}
    (htakes : turn.operation.takes? = some id) :
    turn.after.idsAt (.queued queue) = (turn.before.idsAt (.queued queue)).erase id := by
  obtain ⟨engine, operation⟩ := turn
  obtain ⟨ids, hplaced⟩ := hsound.placed
  cases operation with
  | start other =>
      obtain rfl : other = id := Option.some.inj htakes
      exact idsAt_start hplaced other hqueue
  | fail other reason =>
      obtain rfl : other = id := Option.some.inj htakes
      exact idsAt_fail hplaced other reason queue
  | _ => contradiction

theorem idsAt_of_reset (hreset : turn.operation = .reset) (queue : Queue) :
    turn.after.idsAt (.queued queue) = [] := by
  obtain ⟨engine, operation⟩ := turn
  obtain rfl : operation = .reset := hreset
  show (engine.reset.tasksAt (.queued queue)).map Task.id = []
  rw [tasksAt_reset, List.map_nil]

/-- A container changes at a turn in one of three ways. -/
theorem Turn.takes_or_resets_or_gains (turn : Turn) :
    (∃ id, turn.operation.takes? = some id) ∨ turn.operation = .reset ∨
      turn.operation.takes? = none ∧ turn.operation ≠ .reset := by
  cases htakes : turn.operation.takes? with
  | some id => exact .inl ⟨id, rfl⟩
  | none =>
      by_cases hreset : turn.operation = .reset
      · exact .inr (.inl hreset)
      · exact .inr (.inr ⟨rfl, hreset⟩)

/-! ## What arrives -/

private theorem append_diff_self (first second : List Nat) :
    (first ++ second).diff first = second := by
  induction first with
  | nil => rfl
  | cons id first ih => simpa using ih

theorem arrivals_of_gain {gained : List Nat}
    (h : turn.after.idsAt (.queued queue) = turn.before.idsAt (.queued queue) ++ gained) :
    turn.arrivals queue = gained := by
  rw [Turn.arrivals, h, append_diff_self]

theorem arrivals_of_subset (hsound : turn.before.Sound)
    (h : turn.after.idsAt (.queued queue) ⊆ turn.before.idsAt (.queued queue)) :
    turn.arrivals queue = [] := by
  refine List.eq_nil_iff_forall_not_mem.2 fun id hid => ?_
  obtain ⟨hafter, hbefore⟩ := (Turn.mem_arrivals hsound).1 hid
  exact hbefore (h hafter)

theorem arrivals_of_take (hsound : turn.before.Sound) (hqueue : queue ≠ .pendingAsync) {id : Nat}
    (htakes : turn.operation.takes? = some id) : turn.arrivals queue = [] := by
  refine arrivals_of_subset hsound ?_
  rw [idsAt_of_take hsound hqueue htakes]
  exact List.erase_subset

theorem arrivals_of_reset (hsound : turn.before.Sound) (hreset : turn.operation = .reset) :
    turn.arrivals queue = [] := by
  refine arrivals_of_subset hsound ?_
  rw [idsAt_of_reset hreset]
  exact List.nil_subset _

theorem arrivals_eq_submitted (hsound : turn.before.Sound) (hqueue : queue ≠ .pendingAsync)
    (hcallback : queue ≠ .callbackQueue) : turn.arrivals queue = turn.submitted queue := by
  obtain ⟨id, htakes⟩ | hreset | ⟨htakes, hreset⟩ := turn.takes_or_resets_or_gains
  · rw [arrivals_of_take hsound hqueue htakes]
    obtain ⟨engine, operation⟩ := turn
    cases operation <;> first | rfl | contradiction
  · rw [arrivals_of_reset hsound hreset]
    obtain ⟨engine, operation⟩ := turn
    obtain rfl : operation = .reset := hreset
    rfl
  · obtain ⟨gained, hgained, hsubmitted⟩ := idsAt_of_gain hqueue htakes hreset
    rw [arrivals_of_gain hgained, hsubmitted hcallback]

/-- The callbacks of a call on the clock arrive in the order that it reports. -/
theorem arrivals_eq_released {ids : List Nat} (hreleased : turn.answer = .released ids) :
    turn.arrivals .callbackQueue = ids := by
  obtain ⟨engine, operation⟩ := turn
  have hqueue : Queue.callbackQueue ≠ .pendingAsync := by simp
  cases operation with
  | advanceClock ms =>
      obtain rfl : (engine.advanceClock ms).1 = ids := Answer.released.inj hreleased
      exact arrivals_of_gain (idsAt_release _ hqueue _)
  | advanceClockTo moment =>
      obtain rfl : (engine.advanceClockTo moment).1 = ids := Answer.released.inj hreleased
      exact arrivals_of_gain (idsAt_release _ hqueue _)
  | _ => exact absurd hreleased (by simp [Turn.answer, perform])

end Engine

end EventLoop
