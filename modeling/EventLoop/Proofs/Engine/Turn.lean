import EventLoop.Proofs.Engine.Move
import EventLoop.Proofs.Engine.Timetable

/-!
# The turns of a run

A run is told by its turns, each of which is an operation together with the
engine that it is performed on.  What a turn brings to a container and what it
starts from there are read off the containers themselves, so that they mean the
same for every operation.

`turns_induction` is the induction over a run that carries its turns along.
Every engine on the way is `Sound`: its places partition its tasks, and its
timers lie ahead.
-/

namespace EventLoop

namespace Engine

/-- One operation of a run, and the engine that it is performed on. -/
structure Turn where
  before : Engine
  operation : Operation

namespace Turn

def answer (turn : Turn) : Answer :=
  (turn.before.perform turn.operation).1

def after (turn : Turn) : Engine :=
  (turn.before.perform turn.operation).2

/-- The ids that a container has after the turn and did not have before, in
their order there. -/
def arrivals (queue : Queue) (turn : Turn) : List Nat :=
  (turn.after.idsAt (.queued queue)).diff (turn.before.idsAt (.queued queue))

/-- The turn fails the task with an id. -/
def Fails (turn : Turn) (id : Nat) : Prop :=
  ∃ reason task, turn.operation = .fail id reason ∧ turn.answer = .moved (.ok task)

end Turn

/-- The turns of a run, in order. -/
def turns (engine : Engine) : List Operation → List Turn
  | [] => []
  | operation :: rest => ⟨engine, operation⟩ :: (engine.perform operation).2.turns rest

/-- The ids that the turns of a run bring to a container, in order. -/
def arrivals (queue : Queue) (turns : List Turn) : List Nat :=
  turns.flatMap (Turn.arrivals queue)

theorem arrivals_concat (queue : Queue) (turns : List Turn) (turn : Turn) :
    arrivals queue (turns ++ [turn]) = arrivals queue turns ++ turn.arrivals queue := by
  simp [arrivals]

/-! ## Every engine of a run is sound -/

/-- The places of an engine partition its tasks, and its timers lie ahead. -/
structure Sound (engine : Engine) : Prop where
  placed : ∃ ids, engine.Placed ids
  timed : engine.Timed

theorem Sound.withTraceCapacity (capacity : Nat) : (Engine.withTraceCapacity capacity).Sound :=
  ⟨⟨[], .withTraceCapacity capacity⟩, .withTraceCapacity capacity⟩

theorem Sound.after {turn : Turn} (h : turn.before.Sound) : turn.after.Sound := by
  obtain ⟨⟨ids, hplaced⟩, htimed⟩ := h
  exact ⟨⟨_, hplaced.perform turn.operation⟩, htimed.perform hplaced turn.operation⟩

theorem Sound.onward {turn : Turn} (h : turn.before.Sound) : turn.before.Onward turn.after := by
  obtain ⟨ids, hplaced⟩ := h.placed
  exact .perform hplaced turn.operation

theorem Sound.nodup_idsAt {engine : Engine} (h : engine.Sound) (place : Place) :
    (engine.idsAt place).Nodup := by
  obtain ⟨ids, hplaced⟩ := h.placed
  have hsublist : (engine.idsAt place).Sublist (engine.tasks.map Task.id) := by
    rw [tasks, List.map_flatMap]
    exact List.sublist_flatten_of_mem (List.mem_map_of_mem place.mem_all)
  exact hplaced.nodup.sublist hsublist

private theorem turns_induction_from {motive : List Turn → Engine → Prop}
    (step : ∀ turns (turn : Turn), turn.before.Sound → motive turns turn.before →
      motive (turns ++ [turn]) turn.after) (operations : List Operation) :
    ∀ (earlier : List Turn) (engine : Engine), engine.Sound → motive earlier engine →
      motive (earlier ++ engine.turns operations) (engine.performAll operations).2 := by
  induction operations with
  | nil =>
      intro earlier engine _ h
      simpa [turns, performAll] using h
  | cons operation rest ih =>
      intro earlier engine hsound h
      let turn : Turn := ⟨engine, operation⟩
      have hrest := ih (earlier ++ [turn]) turn.after hsound.after (step earlier turn hsound h)
      rwa [List.append_assoc] at hrest

/-- What holds at the start of a run, of its turns and its engine, and is kept
by every turn of a sound engine holds at its end. -/
theorem turns_induction {motive : List Turn → Engine → Prop} {capacity : Nat}
    (start : motive [] (withTraceCapacity capacity))
    (step : ∀ turns (turn : Turn), turn.before.Sound → motive turns turn.before →
      motive (turns ++ [turn]) turn.after) (operations : List Operation) :
    motive ((withTraceCapacity capacity).turns operations)
      ((withTraceCapacity capacity).performAll operations).2 := by
  simpa using turns_induction_from step operations [] _ (.withTraceCapacity capacity) start

theorem sound_of_run (capacity : Nat) (operations : List Operation) :
    ((withTraceCapacity capacity).performAll operations).2.Sound :=
  turns_induction (motive := fun _ engine => engine.Sound) (.withTraceCapacity capacity)
    (fun _ _ h _ => h.after) operations

/-! ## Arrivals -/

theorem Turn.mem_arrivals {turn : Turn} (h : turn.before.Sound) {queue : Queue} {id : Nat} :
    id ∈ turn.arrivals queue ↔
      id ∈ turn.after.idsAt (.queued queue) ∧ id ∉ turn.before.idsAt (.queued queue) :=
  (h.after.nodup_idsAt _).mem_sdiff_iff

theorem Turn.nodup_arrivals {turn : Turn} (h : turn.before.Sound) (queue : Queue) :
    (turn.arrivals queue).Nodup :=
  (h.after.nodup_idsAt _).diff

/-- A task that is past the stage of a container never arrives there. -/
theorem Turn.not_mem_arrivals_of_past {turn : Turn} (h : turn.before.Sound) {queue : Queue}
    {id : Nat} (hpast : turn.before.Past id (Place.queued queue).stage) :
    id ∉ turn.arrivals queue := by
  intro hid
  obtain ⟨hafter, hbefore⟩ := (Turn.mem_arrivals h).1 hid
  obtain ⟨source, hsource, rfl | hlt⟩ :=
    h.onward.whence (.queued queue) id hafter hpast.lt_nextId
  · exact hbefore hsource
  · have := hpast.stage_le source hsource
    omega

/-- What has arrived in a container is past its stage. -/
theorem Turn.past_of_mem_arrivals {turn : Turn} (h : turn.before.Sound) {queue : Queue} {id : Nat}
    (hid : id ∈ turn.arrivals queue) : turn.after.Past id (Place.queued queue).stage := by
  obtain ⟨ids, hplaced⟩ := h.after.placed
  exact hplaced.past ((Turn.mem_arrivals h).1 hid).1

end Engine

end EventLoop
