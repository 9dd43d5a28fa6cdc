import EventLoop.Proofs.Engine.Arrival

/-!
# The order in which tasks are served

A caller that starts only what is next gets the tasks of an engine in a fixed
order: those of the deferred queue before those of the callback queue, and
these before those of the call stack.  The two queues serve first what came
first, and the call stack serves last what came first.

Both orders come from how a container changes: it grows at its end, and `start`
and `fail` take one id out of it.  In a queue, what was started followed by
what is still there remains a part of what ever arrived, in the same order.
The call stack is in the order of submission, and so what is next on it is its
latest task.
-/

namespace EventLoop

namespace Engine

variable {engine : Engine} {ids : List Nat} {turn : Turn} {queue : Queue}

/-! ## What is next -/

/-- What is next is the first task of the deferred queue, or else the first one
of the callback queue, or else the last one of the call stack. -/
theorem next?_cases {task : Task} (h : engine.next? = some task) :
    (∃ rest, engine.queues.deferredQueue = task :: rest) ∨
    engine.queues.deferredQueue = [] ∧
      ((∃ rest, engine.queues.callbackQueue = task :: rest) ∨
        engine.queues.callbackQueue = [] ∧ ∃ rest, engine.queues.callStack = rest ++ [task]) := by
  simp only [next?, Queues.head?, Queues.last?, Queues.get, Option.orElse_eq_orElse,
    Option.orElse_eq_or, Option.or_eq_some_iff, List.head?_eq_none_iff, List.head?_eq_some_iff,
    List.getLast?_eq_some_iff] at h
  exact h

theorem next?_eq_none_iff :
    engine.next? = none ↔ engine.queues.deferredQueue = [] ∧ engine.queues.callbackQueue = [] ∧
      engine.queues.callStack = [] := by
  simp [next?, Queues.head?, Queues.last?, Queues.get]

/-- What is next can be started. -/
theorem Placed.start_next? (h : engine.Placed ids) {task : Task} (hnext : engine.next? = some task) :
    ∃ started, (engine.start task.id).1 = .ok started := by
  refine (h.guarded_start task.id).succeeds_iff.2 ?_
  obtain ⟨rest, hrest⟩ | ⟨-, ⟨rest, hrest⟩ | ⟨-, rest, hrest⟩⟩ := next?_cases hnext
  · exact .inr (.inr (by simp [idsAt, tasksAt, Queues.get, hrest]))
  · exact .inr (.inl (by simp [idsAt, tasksAt, Queues.get, hrest]))
  · exact .inl (by simp [idsAt, tasksAt, Queues.get, hrest])

/-- The turn starts nothing but what is next. -/
def Turn.startsNext (turn : Turn) : Bool :=
  match turn.operation with
  | .start id => turn.before.next?.map Task.id = some id
  | _ => true

/-- The id that a turn starts from a container, if it does. -/
def Turn.begun (queue : Queue) (turn : Turn) : List Nat :=
  match turn.operation, turn.answer with
  | .start id, .moved (.ok _) => if id ∈ turn.before.idsAt (.queued queue) then [id] else []
  | _, _ => []

theorem Turn.begun_cases (queue : Queue) (turn : Turn) :
    turn.begun queue = [] ∨ ∃ id, turn.begun queue = [id] ∧ turn.operation = .start id ∧
      id ∈ turn.before.idsAt (.queued queue) := by
  unfold Turn.begun
  split
  · rename_i id _ hstart _
    split
    · rename_i hid
      exact .inr ⟨id, rfl, hstart, hid⟩
    · exact .inl rfl
  · exact .inl rfl

theorem Turn.begun_of_not_start (h : ∀ id, turn.operation ≠ .start id) :
    turn.begun queue = [] := by
  obtain hnone | ⟨id, -, hstart, -⟩ := turn.begun_cases queue
  · exact hnone
  · exact absurd hstart (h id)

/-- A task of a container that is started is next there, and the containers
that are served before are empty. -/
theorem Turn.next?_of_start (hsound : turn.before.Sound) (hnext : turn.startsNext) {id : Nat}
    (hstart : turn.operation = .start id) {queue : Queue}
    (hid : id ∈ turn.before.idsAt (.queued queue)) :
    (queue = .deferredQueue ∧ ∃ rest, turn.before.idsAt (.queued .deferredQueue) = id :: rest) ∨
    turn.before.queues.deferredQueue = [] ∧
      (queue = .callbackQueue ∧
          (∃ rest, turn.before.idsAt (.queued .callbackQueue) = id :: rest) ∨
        turn.before.queues.callbackQueue = [] ∧ queue = .callStack ∧
          ∃ rest, turn.before.idsAt (.queued .callStack) = rest ++ [id]) := by
  obtain ⟨ids, hplaced⟩ := hsound.placed
  have hmap : turn.before.next?.map Task.id = some id := by
    simpa [Turn.startsNext, hstart] using hnext
  obtain ⟨task, htask, rfl⟩ := Option.map_eq_some_iff.1 hmap
  -- the task is at one place only, so its container is the one where it is next
  have hplace : ∀ other, task.id ∈ turn.before.idsAt (.queued other) → queue = other :=
    fun other hother => Place.queued.inj (hplaced.place_eq hid hother)
  obtain ⟨rest, hrest⟩ | ⟨hdeferred, ⟨rest, hrest⟩ | ⟨hcallback, rest, hrest⟩⟩ := next?_cases htask
  · have hids : turn.before.idsAt (.queued .deferredQueue) = task.id :: rest.map Task.id := by
      simp [idsAt, tasksAt, Queues.get, hrest]
    exact .inl ⟨hplace _ (by simp [hids]), _, hids⟩
  · have hids : turn.before.idsAt (.queued .callbackQueue) = task.id :: rest.map Task.id := by
      simp [idsAt, tasksAt, Queues.get, hrest]
    exact .inr ⟨hdeferred, .inl ⟨hplace _ (by simp [hids]), _, hids⟩⟩
  · have hids : turn.before.idsAt (.queued .callStack) = rest.map Task.id ++ [task.id] := by
      simp [idsAt, tasksAt, Queues.get, hrest]
    exact .inr ⟨hdeferred, .inr ⟨hcallback, hplace _ (by simp [hids]), _, hids⟩⟩

/-! ## Queues serve first what came first -/

/-- The ids that turns start from a container, in order. -/
def begun (queue : Queue) (turns : List Turn) : List Nat :=
  turns.flatMap (Turn.begun queue)

/-- What was started from a queue and then what is still there arrived in this
order. -/
private theorem begun_idsAt_sublist_after {turns : List Turn} (hsound : turn.before.Sound)
    (hnext : turn.startsNext) (hqueue : queue = .deferredQueue ∨ queue = .callbackQueue)
    (h : (begun queue turns ++ turn.before.idsAt (.queued queue)).Sublist (arrivals queue turns)) :
    (begun queue (turns ++ [turn]) ++ turn.after.idsAt (.queued queue)).Sublist
      (arrivals queue (turns ++ [turn])) := by
  have hpending : queue ≠ .pendingAsync := by rcases hqueue with rfl | rfl <;> simp
  have hbegun : begun queue (turns ++ [turn]) = begun queue turns ++ turn.begun queue := by
    simp [begun]
  rw [hbegun, arrivals_concat, List.append_assoc]
  obtain ⟨id, htakes⟩ | hreset | ⟨htakes, hreset⟩ := turn.takes_or_resets_or_gains
  · rw [arrivals_of_take hsound hpending htakes, List.append_nil,
      idsAt_of_take hsound hpending htakes]
    refine List.Sublist.trans (List.Sublist.append_left ?_ _) h
    obtain hnone | ⟨started, hbegun, hstart, hid⟩ := turn.begun_cases queue
    · rw [hnone]
      exact List.erase_sublist
    · -- a task that is started stands first, and so it is put behind those before it
      obtain rfl : started = id := by simpa [hstart, Operation.takes?] using htakes
      have hfirst : ∃ rest, turn.before.idsAt (.queued queue) = started :: rest := by
        obtain ⟨rfl, hrest⟩ | ⟨-, ⟨rfl, hrest⟩ | ⟨-, rfl, -⟩⟩ :=
          Turn.next?_of_start hsound hnext hstart hid
        · exact hrest
        · exact hrest
        · simp at hqueue
      obtain ⟨rest, hrest⟩ := hfirst
      rw [hbegun, hrest, List.erase_cons_head]
      exact .refl _
  · rw [arrivals_of_reset hsound hreset, idsAt_of_reset hreset,
      Turn.begun_of_not_start (by simp [hreset])]
    simpa using (List.sublist_append_left _ _).trans h
  · obtain ⟨gained, hgained, -⟩ := idsAt_of_gain hpending htakes hreset
    have hnone : ∀ id, turn.operation ≠ .start id := by
      intro id hstart
      simp [hstart, Operation.takes?] at htakes
    rw [arrivals_of_gain hgained, hgained, Turn.begun_of_not_start hnone, List.nil_append,
      ← List.append_assoc]
    exact h.append_right gained

/-! ## The call stack serves first what came last -/

/-- The tasks of the call stack stand in the order of their submission. -/
def Stacked (engine : Engine) : Prop :=
  (engine.idsAt (.queued .callStack)).Pairwise (· < ·)

private theorem stacked_after (hsound : turn.before.Sound) (h : turn.before.Stacked) :
    turn.after.Stacked := by
  have hqueue : Queue.callStack ≠ .pendingAsync := by simp
  obtain ⟨id, htakes⟩ | hreset | ⟨htakes, hreset⟩ := turn.takes_or_resets_or_gains
  · rw [Stacked, idsAt_of_take hsound hqueue htakes]
    exact h.sublist List.erase_sublist
  · rw [Stacked, idsAt_of_reset hreset]
    exact .nil
  · obtain ⟨gained, hgained, hsubmitted⟩ := idsAt_of_gain hqueue htakes hreset
    obtain ⟨ids, hplaced⟩ := hsound.placed
    rw [Stacked, hgained, hsubmitted (by simp)]
    refine List.pairwise_append.2 ⟨h, ?_, fun id hid new hnew => ?_⟩
    · unfold Turn.submitted
      split
      · split <;> simp
      · exact .nil
    · -- a new id is above all others
      have hlt : id < turn.before.nextId := (hplaced.past hid).lt_nextId
      obtain ⟨engine, operation⟩ := turn
      unfold Turn.submitted at hnew
      cases operation with
      | submit step =>
          have hfresh : new = engine.nextId := by
            simp only [Turn.answer, perform] at hnew
            split at hnew
            · exact List.mem_singleton.1 hnew
            · simp at hnew
          exact hfresh ▸ hlt
      | _ => simp [Turn.answer, perform] at hnew

/-- Of the tasks on the call stack the latest one leaves it, unless one is
failed. -/
theorem le_of_leaves (hsound : turn.before.Sound) (hstacked : turn.before.Stacked)
    (hnext : turn.startsNext) (hreset : turn.operation ≠ .reset) {older younger : Nat}
    (holder : older ∈ turn.before.idsAt (.queued .callStack))
    (hyounger : younger ∈ turn.before.idsAt (.queued .callStack))
    (hleft : older ∉ turn.after.idsAt (.queued .callStack)) :
    younger ≤ older ∨ ∃ reason, turn.operation = .fail older reason := by
  have hqueue : Queue.callStack ≠ .pendingAsync := by simp
  obtain ⟨id, htakes⟩ | hresets | ⟨htakes, -⟩ := turn.takes_or_resets_or_gains
  · rw [idsAt_of_take hsound hqueue htakes] at hleft
    -- whatever else is taken, the older task stays
    have hid : older = id := by
      by_contra hne
      exact hleft ((List.mem_erase_of_ne hne).2 holder)
    subst hid
    cases hoperation : turn.operation with
    | fail other reason =>
        obtain rfl : other = older := by simpa [hoperation, Operation.takes?] using htakes
        exact .inr ⟨reason, rfl⟩
    | start other =>
        obtain rfl : other = older := by simpa [hoperation, Operation.takes?] using htakes
        obtain ⟨hqueue, -⟩ | ⟨-, ⟨hqueue, -⟩ | ⟨-, -, rest, hrest⟩⟩ :=
          Turn.next?_of_start hsound hnext hoperation holder
        · contradiction
        · contradiction
        · -- it is started from the end of the stack
          rw [Stacked, hrest] at hstacked
          rw [hrest] at hyounger
          rcases List.mem_append.1 hyounger with hmem | hmem
          · exact .inl ((List.pairwise_append.1 hstacked).2.2 younger hmem other (by simp)).le
          · exact .inl (List.mem_singleton.1 hmem).le
    | _ => simp [hoperation, Operation.takes?] at htakes
  · exact absurd hresets hreset
  · obtain ⟨gained, hgained, -⟩ := idsAt_of_gain hqueue htakes hreset
    rw [hgained] at hleft
    exact absurd (List.mem_append_left _ holder) hleft

/-- Of two tasks on the call stack the later one leaves it first, unless the
other one is failed or the engine is reset. -/
def LastFirst (engine : Engine) (operations : List Operation) : Prop :=
  ∀ older ∈ engine.idsAt (.queued .callStack), ∀ younger ∈ engine.idsAt (.queued .callStack),
    older < younger →
    older ∉ (engine.performAll operations).2.idsAt (.queued .callStack) →
    ∃ turn ∈ engine.turns operations,
      older ∈ turn.before.idsAt (.queued .callStack) ∧
      older ∉ turn.after.idsAt (.queued .callStack) ∧
      (younger ∉ turn.before.idsAt (.queued .callStack) ∨
        (∃ reason, turn.operation = .fail older reason) ∨ turn.operation = .reset)

theorem exists_leaves {id : Nat} (operations : List Operation) :
    ∀ engine : Engine, id ∈ engine.idsAt (.queued queue) →
      id ∉ (engine.performAll operations).2.idsAt (.queued queue) →
      ∃ turn ∈ engine.turns operations, id ∈ turn.before.idsAt (.queued queue) ∧
        id ∉ turn.after.idsAt (.queued queue) := by
  induction operations with
  | nil => exact fun engine hid hleft => absurd hid hleft
  | cons operation rest ih =>
      intro engine hid hleft
      by_cases hstays : id ∈ (engine.perform operation).2.idsAt (.queued queue)
      · obtain ⟨turn, hturn, hleaves⟩ := ih _ hstays hleft
        exact ⟨turn, List.mem_cons_of_mem _ hturn, hleaves⟩
      · exact ⟨⟨engine, operation⟩, List.mem_cons_self, hid, hstays⟩

private theorem lastFirst_of_turns {operations : List Operation}
    (h : ∀ turn ∈ engine.turns operations,
      turn.before.Sound ∧ turn.before.Stacked ∧ turn.startsNext) :
    engine.LastFirst operations := by
  intro older holder younger _ hlt hleft
  obtain ⟨turn, hturn, hbefore, hafter⟩ := exists_leaves operations engine holder hleft
  refine ⟨turn, hturn, hbefore, hafter, ?_⟩
  by_cases hthere : younger ∈ turn.before.idsAt (.queued .callStack)
  · refine .inr ?_
    by_cases hreset : turn.operation = .reset
    · exact .inr hreset
    · obtain ⟨hsound, hstacked, hnext⟩ := h turn hturn
      obtain hle | hfails := le_of_leaves hsound hstacked hnext hreset hbefore hthere hafter
      · omega
      · exact .inl hfails
  · exact .inl hthere

/-! ## Runs -/

/-- The ids that turns submit to a container, in order. -/
def submitted (queue : Queue) (turns : List Turn) : List Nat :=
  turns.flatMap (Turn.submitted queue)

/-- How the ready tasks of an engine are served by the turns of a run. -/
structure Serves (turns : List Turn) (engine : Engine) : Prop where
  /-- Nothing is next if and only if nothing is ready. -/
  next?_eq_none_iff : engine.next? = none ↔
    engine.queues.deferredQueue = [] ∧ engine.queues.callbackQueue = [] ∧
      engine.queues.callStack = []
  /-- What is next can be started. -/
  start_next? : ∀ task, engine.next? = some task →
    ∃ started, (engine.start task.id).1 = .ok started
  /-- The deferred queue is served before the callback queue. -/
  callback_last : ∀ turn ∈ turns, turn.begun .callbackQueue ≠ [] →
    turn.before.queues.deferredQueue = []
  /-- Both queues are served before the call stack. -/
  stack_last : ∀ turn ∈ turns, turn.begun .callStack ≠ [] →
    turn.before.queues.deferredQueue = [] ∧ turn.before.queues.callbackQueue = []
  /-- Deferred tasks start in the order of their submission. -/
  deferred_order : (begun .deferredQueue turns).Sublist (submitted .deferredQueue turns)
  /-- Callback tasks start in the order in which they entered their queue. -/
  callback_order : (begun .callbackQueue turns).Sublist (arrivals .callbackQueue turns)
  /-- The callbacks of one call on the clock enter in the order that it reports. -/
  callback_released : ∀ turn ∈ turns, ∀ ids, turn.answer = .released ids →
    turn.arrivals .callbackQueue = ids

private theorem sound_of_mem_turns (capacity : Nat) (operations : List Operation) :
    (∀ turn ∈ (withTraceCapacity capacity).turns operations,
      turn.before.Sound ∧ turn.before.Stacked) ∧
    ((withTraceCapacity capacity).performAll operations).2.Stacked := by
  refine turns_induction (motive := fun turns engine =>
    (∀ turn ∈ turns, turn.before.Sound ∧ turn.before.Stacked) ∧ engine.Stacked)
    ⟨by simp, .nil⟩ ?_ operations
  rintro turns turn hsound ⟨hturns, hstacked⟩
  refine ⟨fun other hother => ?_, stacked_after hsound hstacked⟩
  rcases List.mem_append.1 hother with hold | hnew
  · exact hturns other hold
  · rw [List.mem_singleton.1 hnew]
    exact ⟨hsound, hstacked⟩

private theorem begun_sublist_arrivals (capacity : Nat) (operations : List Operation)
    (hnext : ∀ turn ∈ (withTraceCapacity capacity).turns operations, turn.startsNext)
    (hqueue : queue = .deferredQueue ∨ queue = .callbackQueue) :
    (begun queue ((withTraceCapacity capacity).turns operations)).Sublist
      (arrivals queue ((withTraceCapacity capacity).turns operations)) := by
  have hline := turns_induction
    (motive := fun turns engine => (∀ turn ∈ turns, turn.startsNext) →
      (begun queue turns ++ engine.idsAt (.queued queue)).Sublist (arrivals queue turns))
    (fun _ => by cases queue <;> exact .refl [])
    (fun turns turn hsound h hall => begun_idsAt_sublist_after hsound (hall turn (by simp)) hqueue
      (h fun other hother => hall other (List.mem_append_left _ hother)))
    operations hnext
  exact (List.sublist_append_left _ _).trans hline

private theorem serves_of_run (capacity : Nat) (operations : List Operation)
    (hnext : ∀ turn ∈ (withTraceCapacity capacity).turns operations, turn.startsNext) :
    Serves ((withTraceCapacity capacity).turns operations)
      ((withTraceCapacity capacity).performAll operations).2 := by
  obtain ⟨hturns, -⟩ := sound_of_mem_turns capacity operations
  obtain ⟨ids, hplaced⟩ := (sound_of_run capacity operations).placed
  refine ⟨Engine.next?_eq_none_iff, fun task => hplaced.start_next?, fun turn hturn hbegun => ?_,
    fun turn hturn hbegun => ?_, ?_, begun_sublist_arrivals capacity operations hnext (.inr rfl),
    fun turn _ ids => arrivals_eq_released⟩
  · obtain hnone | ⟨id, -, hstart, hid⟩ := turn.begun_cases .callbackQueue
    · exact absurd hnone hbegun
    · obtain ⟨hqueue, -⟩ | ⟨hdeferred, -⟩ :=
        Turn.next?_of_start (hturns turn hturn).1 (hnext turn hturn) hstart hid
      · contradiction
      · exact hdeferred
  · obtain hnone | ⟨id, -, hstart, hid⟩ := turn.begun_cases .callStack
    · exact absurd hnone hbegun
    · obtain ⟨hqueue, -⟩ | ⟨hdeferred, ⟨hqueue, -⟩ | ⟨hcallback, -⟩⟩ :=
        Turn.next?_of_start (hturns turn hturn).1 (hnext turn hturn) hstart hid
      · contradiction
      · contradiction
      · exact ⟨hdeferred, hcallback⟩
  · have hsame : arrivals .deferredQueue ((withTraceCapacity capacity).turns operations) =
        submitted .deferredQueue ((withTraceCapacity capacity).turns operations) :=
      List.flatMap_congr fun turn hturn =>
        arrivals_eq_submitted (hturns turn hturn).1 (by simp) (by simp)
    exact hsame ▸ begun_sublist_arrivals capacity operations hnext (.inl rfl)

private theorem turns_suffix (earlier later : List Operation) :
    ∀ engine : Engine,
      (engine.performAll earlier).2.turns later <:+ engine.turns (earlier ++ later) := by
  induction earlier with
  | nil => exact fun engine => List.suffix_refl _
  | cons operation rest ih =>
      exact fun engine => (ih (engine.perform operation).2).trans (List.suffix_cons _ _)

/-- **The order of service** of a run whose caller starts only what is next:
deferred tasks come before callbacks and both before the call stack, the two
queues serve first what came first, and from every state on the call stack
serves last what came first. -/
theorem service_of_run (capacity : Nat) (operations : List Operation)
    (hnext : ∀ turn ∈ (withTraceCapacity capacity).turns operations, turn.startsNext) :
    let engine := withTraceCapacity capacity
    Serves (engine.turns operations) (engine.performAll operations).2 ∧
      ∀ earlier later, operations = earlier ++ later →
        (engine.performAll earlier).2.LastFirst later := by
  refine ⟨serves_of_run capacity operations hnext, ?_⟩
  rintro earlier later rfl
  obtain ⟨hturns, -⟩ := sound_of_mem_turns capacity (earlier ++ later)
  refine lastFirst_of_turns fun turn hturn => ?_
  have hmem := (turns_suffix earlier later (withTraceCapacity capacity)).subset hturn
  exact ⟨(hturns turn hmem).1, (hturns turn hmem).2, hnext turn hmem⟩

/-- A step that targets a container. -/
private def stepTo (queue : Queue) : Step :=
  { kind := .emptyStatement, sourceLine := 1, description := "", action := .statement,
    delayMs := 5, targetQueue := queue }

/-- Two tasks for the call stack, a deferred one and one that waits are served
in the order 3, 2, 4, 1. -/
theorem service_of_run_four :
    let operations : List Operation :=
      [.submit (stepTo .callStack), .submit (stepTo .callStack), .submit (stepTo .deferredQueue),
       .submit (stepTo .pendingAsync), .start 3, .complete 3, .start 2, .advanceClock 5,
       .start 4, .start 1]
    let engine := withTraceCapacity 10
    (begun .deferredQueue (engine.turns operations) = [3] ∧
      begun .callbackQueue (engine.turns operations) = [4] ∧
      begun .callStack (engine.turns operations) = [2, 1]) ∧
    Serves (engine.turns operations) (engine.performAll operations).2 ∧
      ∀ earlier later, operations = earlier ++ later →
        (engine.performAll earlier).2.LastFirst later :=
  ⟨by decide +kernel, service_of_run 10 _ (by decide +kernel)⟩

end Engine

end EventLoop
