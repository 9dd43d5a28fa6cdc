import EventLoop.Proofs.Engine.Renumbering

/-!
# A reset is a fresh start

A run after a reset is the run of a new engine in which all ids are larger by
the number of ids handed out before (`fresh_start_of_reset`).  The operations
of the two runs are the same but for the ids that they name, and so are the
answers, one by one, and the states.

The ids handed out before the reset are gone for good: tasks only move on, and
after the reset they are nowhere, so every later operation on them is refused
because the task is not found.
-/

namespace EventLoop

namespace Engine

namespace Operation

/-- The id of the task that an operation is about. -/
def id? : Operation → Option Nat
  | .start id | .complete id | .fail id _ | .advanceTimer id => some id
  | .submit _ | .advanceClock _ | .advanceClockTo _ | .reset => none

/-- The same operation about the task with another id. -/
def mapId (change : Nat → Nat) : Operation → Operation
  | .submit step => .submit step
  | .start id => .start (change id)
  | .complete id => .complete (change id)
  | .fail id reason => .fail (change id) reason
  | .advanceTimer id => .advanceTimer (change id)
  | .advanceClock ms => .advanceClock ms
  | .advanceClockTo moment => .advanceClockTo moment
  | .reset => .reset

/-- An id that is lowered and raised by the same number is what it was, if it
is large enough. -/
theorem mapId_add_sub {offset : Nat} {operation : Operation}
    (h : ∀ id ∈ operation.id?, offset ≤ id) :
    (operation.mapId (· - offset)).mapId (· + offset) = operation := by
  cases operation with
  | start id | complete id | fail id reason | advanceTimer id =>
      have hid : id - offset + offset = id := Nat.sub_add_cancel (h id rfl)
      simp only [mapId, hid]
  | submit step | advanceClock ms | advanceClockTo moment | reset => rfl

end Operation

namespace Answer

/-- The same answer about tasks with larger ids. -/
def renumber (offset : Nat) : Answer → Answer
  | .submitted task => .submitted (task.renumber offset)
  | .moved result => .moved (renumberResult offset (Task.renumber offset) result)
  | .elapsed result => .elapsed (renumberResult offset (fun _ => ()) result)
  | .released ids => .released (ids.map (· + offset))
  | .forgotten => .forgotten

/-- The refusal that an answer gives. -/
def refusal? : Answer → Option EngineError
  | .moved (.error error) | .elapsed (.error error) => some error
  | _ => none

end Answer

/-! ## Runs of renumbered engines -/

namespace Renumbered

variable {offset : Nat} {engine later : Engine}

/-- One operation on both engines, each about the task with the id that it has
there, keeps the difference between them. -/
theorem perform (h : engine.Renumbered offset later) (operation : Operation) :
    (later.perform (operation.mapId (· + offset))).1 =
        (engine.perform operation).1.renumber offset ∧
      (engine.perform operation).2.Renumbered offset
        (later.perform (operation.mapId (· + offset))).2 := by
  cases operation with
  | submit step =>
      obtain ⟨htask, hnext⟩ := h.submit step
      exact ⟨congrArg Answer.submitted htask, hnext⟩
  | start id =>
      obtain ⟨hresult, hnext⟩ := h.start id
      exact ⟨congrArg Answer.moved hresult, hnext⟩
  | complete id =>
      obtain ⟨hresult, hnext⟩ := h.complete id
      exact ⟨congrArg Answer.moved hresult, hnext⟩
  | fail id reason =>
      obtain ⟨hresult, hnext⟩ := h.fail id reason
      exact ⟨congrArg Answer.moved hresult, hnext⟩
  | advanceTimer id =>
      obtain ⟨hresult, hnext⟩ := h.advanceTimer id
      exact ⟨congrArg Answer.elapsed hresult, hnext⟩
  | advanceClock ms =>
      obtain ⟨hids, hnext⟩ := h.advanceClock ms
      exact ⟨congrArg Answer.released hids, hnext⟩
  | advanceClockTo moment =>
      obtain ⟨hids, hnext⟩ := h.advanceClockTo moment
      exact ⟨congrArg Answer.released hids, hnext⟩
  | reset => exact ⟨rfl, h.reset⟩

theorem performAll (operations : List Operation) :
    ∀ {engine later : Engine}, engine.Renumbered offset later →
      (later.performAll (operations.map (·.mapId (· + offset)))).1 =
          (engine.performAll operations).1.map (·.renumber offset) ∧
        (engine.performAll operations).2.Renumbered offset
          (later.performAll (operations.map (·.mapId (· + offset)))).2 := by
  induction operations with
  | nil => exact fun h => ⟨rfl, h⟩
  | cons operation rest ih =>
      intro engine later h
      obtain ⟨hanswer, hnext⟩ := h.perform operation
      obtain ⟨hanswers, hlast⟩ := ih hnext
      refine ⟨?_, hlast⟩
      simp only [List.map_cons, Engine.performAll, hanswer, hanswers]

end Renumbered

/-! ## What a reset leaves -/

theorem capacity_tellAll (notices : List Notice) :
    ∀ log : TraceLog, (log.tellAll notices).capacity = log.capacity := by
  induction notices with
  | nil => exact fun _ => rfl
  | cons notice rest ih => exact fun log => ih (log.tell notice)

/-- No operation changes the room for events. -/
theorem Placed.capacity_perform {engine : Engine} {ids : List Nat} (h : engine.Placed ids)
    (operation : Operation) :
    (engine.perform operation).2.trace.capacity = engine.trace.capacity := by
  by_cases hsubmit : ∃ step, operation = .submit step
  · obtain ⟨step, rfl⟩ := hsubmit
    simp only [Engine.perform, Engine.submit, record, startTimer]
    split <;> rfl
  · by_cases hreset : operation = .reset
    · subst hreset
      rfl
    · push Not at hsubmit
      obtain ⟨notices, htells, -⟩ := h.course_perform hsubmit hreset
      have htrace := congrArg (fun outcome => outcome.2.trace) (htells.records engine.trace)
      dsimp only at htrace
      rw [htrace, capacity_tellAll]

/-- An engine that is reset is a new one whose ids start later. -/
theorem renumbered_reset (capacity : Nat) (operations : List Operation) :
    let engine := ((withTraceCapacity capacity).performAll operations).2
    (withTraceCapacity capacity).Renumbered (engine.nextId - 1) engine.reset := by
  intro engine
  have hreached : engine.trace.capacity = max capacity 1 ∧ 1 ≤ engine.nextId := by
    refine turns_induction
      (motive := fun _ engine => engine.trace.capacity = max capacity 1 ∧ 1 ≤ engine.nextId)
      ⟨rfl, le_rfl⟩ ?_ operations
    rintro turns turn hsound ⟨hcapacity, hnext⟩
    obtain ⟨ids, hplaced⟩ := hsound.placed
    exact ⟨(hplaced.capacity_perform turn.operation).trans hcapacity,
      hnext.trans hsound.onward.nextId_le⟩
  obtain ⟨hcapacity, hnext⟩ := hreached
  refine ⟨rfl, rfl, rfl, rfl, rfl, ⟨hcapacity, rfl, .nil⟩, ?_⟩
  exact (Nat.add_sub_cancel' hnext).symm

/-- Whatever is done to an engine moves its tasks on. -/
theorem Sound.onward_performAll (operations : List Operation) :
    ∀ {engine : Engine}, engine.Sound →
      (engine.performAll operations).2.Sound ∧ engine.Onward (engine.performAll operations).2 := by
  induction operations with
  | nil => exact fun h => ⟨h, .of_eq rfl rfl⟩
  | cons operation rest ih =>
      intro engine h
      have hsound : (Turn.mk engine operation).before.Sound := h
      obtain ⟨hlast, honward⟩ := ih hsound.after
      exact ⟨hlast, hsound.onward.trans honward⟩

/-- A guarded operation on an id that is nowhere is refused, and the refusal is
recorded. -/
theorem Guarded.of_nowhere {α : Type} {engine : Engine} {id : Nat} {requested : TaskStatus}
    {ready : Prop} {outcome : Except EngineError α × Engine}
    (h : engine.Guarded id requested ready outcome) (hnowhere : ∀ place, id ∉ engine.idsAt place) :
    outcome.1 = .error (.taskNotFound id) ∧
      outcome.2 = { engine with
        trace := engine.trace.record engine.now (some id) .warning
          (EngineError.taskNotFound id).message } := by
  have hrefused := h.notFound_iff.2 hnowhere
  exact ⟨hrefused, h.unchanged _ hrefused⟩

/-- An operation on an id that is nowhere does not find its task, and says so
in the trace. -/
theorem Placed.perform_of_nowhere {engine : Engine} {ids : List Nat} (h : engine.Placed ids)
    {operation : Operation} {id : Nat} (hid : operation.id? = some id)
    (hnowhere : ∀ place, id ∉ engine.idsAt place) :
    (engine.perform operation).1.refusal? = some (.taskNotFound id) ∧
      (engine.perform operation).2 = { engine with
        trace := engine.trace.record engine.now (some id) .warning
          (EngineError.taskNotFound id).message } := by
  cases operation with
  | start other =>
      obtain rfl : other = id := Option.some.inj hid
      obtain ⟨hresult, hnext⟩ := (h.guarded_start other).of_nowhere hnowhere
      exact ⟨by rw [Engine.perform, hresult]; rfl, hnext⟩
  | complete other =>
      obtain rfl : other = id := Option.some.inj hid
      obtain ⟨hresult, hnext⟩ := (h.guarded_complete other).of_nowhere hnowhere
      exact ⟨by rw [Engine.perform, hresult]; rfl, hnext⟩
  | fail other reason =>
      obtain rfl : other = id := Option.some.inj hid
      obtain ⟨hresult, hnext⟩ := (h.guarded_fail other reason).of_nowhere hnowhere
      exact ⟨by rw [Engine.perform, hresult]; rfl, hnext⟩
  | advanceTimer other =>
      obtain rfl : other = id := Option.some.inj hid
      obtain ⟨hresult, hnext⟩ := (h.guarded_advanceTimer other).of_nowhere hnowhere
      exact ⟨by rw [Engine.perform, hresult]; rfl, hnext⟩
  | submit step | advanceClock ms | advanceClockTo moment | reset => contradiction

/-- **A reset is a fresh start up to renumbering.**  Operations on ids handed
out after the reset give the answers and states of a new engine, with ids that
are larger by the number of ids handed out before; an operation on an id handed
out before the reset does not find its task, however much later it comes, and
changes the trace only. -/
theorem fresh_start_of_reset (capacity : Nat) (earlier : List Operation) :
    let engine := ((withTraceCapacity capacity).performAll earlier).2
    let offset := engine.nextId - 1
    (∀ operations : List Operation,
        (∀ operation ∈ operations, ∀ id ∈ operation.id?, engine.nextId ≤ id) →
          let fresh := (withTraceCapacity capacity).performAll
            (operations.map (·.mapId (· - offset)))
          let later := engine.reset.performAll operations
          later.1 = fresh.1.map (·.renumber offset) ∧ fresh.2.Renumbered offset later.2) ∧
      ∀ (operations : List Operation) (operation : Operation) (id : Nat),
        operation.id? = some id → id < engine.nextId →
          let last := (engine.reset.performAll operations).2
          (last.perform operation).1.refusal? = some (.taskNotFound id) ∧
            (last.perform operation).2 = { last with
              trace := last.trace.record last.now (some id) .warning
                (EngineError.taskNotFound id).message } := by
  intro engine offset
  constructor
  · intro operations hids fresh later
    have hrenumbered := (renumbered_reset capacity earlier).performAll
      (operations.map (·.mapId (· - offset)))
    have hsame : (operations.map (·.mapId (· - offset))).map (·.mapId (· + offset)) =
        operations := by
      rw [List.map_map]
      refine (List.map_congr_left fun operation hoperation => ?_).trans (List.map_id operations)
      exact Operation.mapId_add_sub fun id hid =>
        (Nat.sub_le _ _).trans (hids operation hoperation id hid)
    rw [hsame] at hrenumbered
    exact hrenumbered
  · intro operations operation id hid hlt last
    have hsound : (Turn.mk engine .reset).before.Sound := sound_of_run capacity earlier
    have hreset : engine.reset.Sound := hsound.after
    obtain ⟨hlast, honward⟩ := hreset.onward_performAll operations
    obtain ⟨ids, hplaced⟩ := hlast.placed
    refine hplaced.perform_of_nowhere hid fun place hmem => ?_
    -- a task that is there now was there right after the reset
    obtain ⟨source, hsource, -⟩ := honward.whence place id hmem hlt
    rw [idsAt, tasksAt_reset] at hsource
    contradiction

/-- A timer that is submitted after a reset waits, elapses and starts under the
id 3 as it does under the id 1 in a new engine; the id 1 is not found. -/
theorem fresh_start_of_reset_timer :
    let step : Step :=
      { kind := .callExpression, sourceLine := 1, description := "wait", action := .timer,
        delayMs := 5, targetQueue := .pendingAsync }
    let engine := ((withTraceCapacity 2).performAll [.submit step, .submit step]).2
    let operations : List Operation := [.submit step, .start 3, .advanceClock 5, .start 3]
    let later := engine.reset.performAll operations
    let fresh := (withTraceCapacity 2).performAll
      [.submit step, .start 1, .advanceClock 5, .start 1]
    engine.nextId = 3 ∧
      (∀ operation ∈ operations, ∀ id ∈ operation.id?, engine.nextId ≤ id) ∧
      later.1 = fresh.1.map (·.renumber 2) ∧ fresh.2.Renumbered 2 later.2 ∧
      (later.2.perform (.complete 1)).1.refusal? = some (.taskNotFound 1) := by
  intro step engine operations later fresh
  have hids : ∀ operation ∈ operations, ∀ id ∈ operation.id?, engine.nextId ≤ id := by
    decide +kernel
  obtain ⟨hsame, hgone⟩ := fresh_start_of_reset 2 [.submit step, .submit step]
  obtain ⟨hanswers, hstate⟩ := hsame operations hids
  obtain ⟨hrefused, -⟩ := hgone operations (.complete 1) 1 rfl (by decide +kernel)
  exact ⟨rfl, hids, hanswers, hstate, hrefused⟩

end Engine

end EventLoop
