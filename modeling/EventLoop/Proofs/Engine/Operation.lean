import EventLoop.Engine.Basic

/-!
# Runs of an engine

Everything that can be asked of an engine is an `Operation`, and what it gives
back is an `Answer`.  A run performs operations one after the other, with any
ids and any moments; the list of its answers is all that its caller sees, so
the history of a run is told by it: `issued` are the ids that it handed out,
and `liveIds` those that it handed out since the last reset.
-/

namespace EventLoop

namespace Engine

/-- A call on an engine. -/
inductive Operation where
  | submit (step : Step)
  | start (id : Nat)
  | complete (id : Nat)
  | fail (id : Nat) (reason : String)
  | advanceTimer (id : Nat)
  | advanceClock (ms : Nat)
  | advanceClockTo (moment : Nat)
  | reset

/-- What a call gives back. -/
inductive Answer where
  | submitted (task : Task)
  | moved (result : Except EngineError Task)
  | elapsed (result : Except EngineError Unit)
  | released (ids : List Nat)
  | forgotten

/-- Performs an operation. -/
def perform (engine : Engine) : Operation → Answer × Engine
  | .submit step => (.submitted (engine.submit step).1, (engine.submit step).2)
  | .start id => (.moved (engine.start id).1, (engine.start id).2)
  | .complete id => (.moved (engine.complete id).1, (engine.complete id).2)
  | .fail id reason => (.moved (engine.fail id reason).1, (engine.fail id reason).2)
  | .advanceTimer id => (.elapsed (engine.advanceTimer id).1, (engine.advanceTimer id).2)
  | .advanceClock ms => (.released (engine.advanceClock ms).1, (engine.advanceClock ms).2)
  | .advanceClockTo moment =>
      (.released (engine.advanceClockTo moment).1, (engine.advanceClockTo moment).2)
  | .reset => (.forgotten, engine.reset)

/-- Performs operations one after the other. -/
def performAll (engine : Engine) : List Operation → List Answer × Engine
  | [] => ([], engine)
  | operation :: rest =>
      let (answer, engine) := engine.perform operation
      let (answers, engine) := engine.performAll rest
      (answer :: answers, engine)

namespace Answer

/-- The id that an answer hands out. -/
def issued? : Answer → Option Nat
  | .submitted task => some task.id
  | _ => none

/-- The ids handed out since the last reset, after one more answer. -/
def note (ids : List Nat) : Answer → List Nat
  | .submitted task => ids ++ [task.id]
  | .forgotten => []
  | _ => ids

/-- The tasks submitted since the last reset, after one more answer. -/
def keep (tasks : List Task) : Answer → List Task
  | .submitted task => tasks ++ [task]
  | .forgotten => []
  | _ => tasks

theorem map_id_keep (tasks : List Task) (answer : Answer) :
    (answer.keep tasks).map Task.id = answer.note (tasks.map Task.id) := by
  cases answer <;> simp [keep, note]

end Answer

/-- The ids that answers hand out, in order. -/
def issued (answers : List Answer) : List Nat :=
  answers.filterMap Answer.issued?

/-- The ids that answers hand out after the last reset, in order. -/
def liveIds (answers : List Answer) : List Nat :=
  answers.foldl Answer.note []

/-- The tasks that answers submit after the last reset, in order. -/
def liveTasks (answers : List Answer) : List Task :=
  answers.foldl Answer.keep []

@[simp]
theorem issued_nil : issued [] = [] := rfl

theorem issued_concat (answers : List Answer) (answer : Answer) :
    issued (answers ++ [answer]) = issued answers ++ answer.issued?.toList := by
  cases h : answer.issued? <;> simp [issued, h]

theorem liveIds_concat (answers : List Answer) (answer : Answer) :
    liveIds (answers ++ [answer]) = answer.note (liveIds answers) := by
  simp [liveIds]

theorem liveTasks_concat (answers : List Answer) (answer : Answer) :
    liveTasks (answers ++ [answer]) = answer.keep (liveTasks answers) := by
  simp [liveTasks]

theorem performAll_concat (operations : List Operation) (operation : Operation) :
    ∀ engine : Engine, engine.performAll (operations ++ [operation]) =
      let (answers, last) := engine.performAll operations
      (answers ++ [(last.perform operation).1], (last.perform operation).2) := by
  induction operations with
  | nil => exact fun _ => rfl
  | cons first rest ih =>
      intro engine
      simp only [List.cons_append, performAll, ih]

/-! ## Induction over a run -/

private theorem performAll_induction_from {motive : List Answer → Engine → Prop}
    (step : ∀ answers engine operation, motive answers engine →
      motive (answers ++ [(engine.perform operation).1]) (engine.perform operation).2)
    (operations : List Operation) :
    ∀ (answers : List Answer) (engine : Engine), motive answers engine →
      motive (answers ++ (engine.performAll operations).1) (engine.performAll operations).2 := by
  induction operations with
  | nil =>
      intro answers engine h
      simpa [performAll] using h
  | cons operation rest ih =>
      intro answers engine h
      have hrest := ih _ _ (step answers engine operation h)
      simpa [performAll] using hrest

/-- What holds at the start of a run, of its answers and its engine, and is
kept by every operation holds at its end. -/
theorem performAll_induction {motive : List Answer → Engine → Prop} {engine : Engine}
    (start : motive [] engine)
    (step : ∀ answers engine operation, motive answers engine →
      motive (answers ++ [(engine.perform operation).1]) (engine.perform operation).2)
    (operations : List Operation) :
    motive (engine.performAll operations).1 (engine.performAll operations).2 := by
  simpa using performAll_induction_from step operations [] engine start

end Engine

end EventLoop
