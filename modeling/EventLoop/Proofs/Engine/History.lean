import EventLoop.Proofs.Engine.Story
import EventLoop.Proofs.Engine.Timetable

/-!
# The history of a run

The history of a run is all that was recorded since the last reset, however
little of it the log keeps (`history`).  The log is the end of the history, and
the history has the story of every task.

The events that a log has displaced cannot be read off the engine.  A run is
therefore followed together with its notices, and these are the same for every
capacity (`exists_chronicled`): the engine is one and the same but for its log,
which was told those notices.
-/

namespace EventLoop

namespace Engine

/-- What a run records after the last reset: the events of a log that has room
for all of them. -/
def history (operations : List Operation) : List TraceEvent :=
  let count := ((withTraceCapacity 0).performAll operations).2.trace.nextSeq
  ((withTraceCapacity count).performAll operations).2.trace.events

/-- The log of an engine is the end of a history, in which events are numbered
by their positions and in the order of time. -/
structure Recorded (engine : Engine) (capacity : Nat) (history : List TraceEvent) : Prop where
  events_suffix : engine.trace.events <:+ history
  length_events : engine.trace.events.length = min (max capacity 1) history.length
  seq_eq : ∀ (position : Nat) (event : TraceEvent), history[position]? = some event →
    event.seq = position
  evicted_add_length : engine.trace.evicted + engine.trace.events.length = history.length
  chronological : history.Pairwise (·.atMs ≤ ·.atMs)

/-- The events about a submitted task make a story, and the last one of them
tells where the task is now, and with which status. -/
structure Recounted (engine : Engine) (task : Task) (kinds : List TraceKind) : Prop where
  story : ∃ last, kinds.getLast? = some last ∧
    Story task kinds (task.placeAfter last) (task.statusAfter last)
  place_iff : ∀ last, kinds.getLast? = some last →
    ∀ place, task.id ∈ engine.idsAt place ↔ place = task.placeAfter last
  status_eq : ∀ last, kinds.getLast? = some last →
    ∃ current, engine.task? task.id = some current ∧ current.status = task.statusAfter last

/-! ## Runs and their notices -/

/-- What is known of an engine and the notices of its run. -/
private structure Chronicled (tasks : List Task) (engine : Engine) (notices : List Notice) :
    Prop where
  placed : engine.Placed (tasks.map Task.id)
  timed : engine.Timed
  narrated : Narrated tasks engine notices
  chronological : notices.Pairwise (·.atMs ≤ ·.atMs)
  atMs_le_now : ∀ notice ∈ notices, notice.atMs ≤ engine.now

variable {engine : Engine} {tasks : List Task} {notices : List Notice}

/-- An operation that tells something tells it after all else. -/
private theorem Chronicled.tell (h : Chronicled tasks engine notices) {operation : Operation}
    {new : List Notice} (hreset : operation ≠ .reset)
    (htells : Tells (·.perform operation) engine new)
    (hnarrated : Narrated ((engine.perform operation).1.keep tasks) (engine.perform operation).2
      (notices ++ new)) :
    Chronicled ((engine.perform operation).1.keep tasks) (engine.perform operation).2
      (notices ++ new) := by
  have hnow := h.timed.now_le_perform hreset
  refine ⟨?_, h.timed.perform h.placed operation, hnarrated, ?_, fun notice hnotice => ?_⟩
  · rw [Answer.map_id_keep]
    exact h.placed.perform operation
  · refine List.pairwise_append.2 ⟨h.chronological, ?_, fun old hold last hlast => ?_⟩
    · -- all that one operation tells is told at one time
      refine List.pairwise_of_forall_mem_list fun first hfirst second hsecond => ?_
      rw [htells.at_now first hfirst, htells.at_now second hsecond]
    · rw [htells.at_now last hlast]
      exact (h.atMs_le_now old hold).trans hnow
  · rcases List.mem_append.1 hnotice with hold | hnew
    · exact (h.atMs_le_now notice hold).trans hnow
    · exact (htells.at_now notice hnew).le

private theorem tells_submit (engine : Engine) (step : Step) :
    Tells (·.perform (.submit step)) engine
      [⟨engine.now, engine.nextId, .admitted, arrival step.description step.targetQueue⟩] := by
  refine ⟨fun trace => ?_, fun notice hnotice => ?_⟩
  · simp only [perform, submit, record, startTimer]
    split <;> rfl
  · rw [List.mem_singleton.1 hnotice]
    exact (submit_now engine step).symm

/-- One more operation adds the same notices to every log, or it clears them
all. -/
private theorem Chronicled.perform (h : Chronicled tasks engine notices) (operation : Operation) :
    ∃ next, Chronicled ((engine.perform operation).1.keep tasks) (engine.perform operation).2 next ∧
      ∀ capacity,
        ({ engine with trace := (TraceLog.withCapacity capacity).tellAll notices } : Engine).perform
          operation = ((engine.perform operation).1, { (engine.perform operation).2 with
            trace := (TraceLog.withCapacity capacity).tellAll next }) := by
  by_cases hreset : operation = .reset
  · subst hreset
    refine ⟨[], ⟨.reset engine, .reset engine, .reset engine, .nil, by simp⟩, fun capacity => ?_⟩
    simp only [Engine.perform, reset, TraceLog.clear_tellAll]
    rfl
  · -- it is enough that the operation tells something that carries the stories on
    suffices hnew : ∃ new, Tells (·.perform operation) engine new ∧
        Narrated ((engine.perform operation).1.keep tasks) (engine.perform operation).2
          (notices ++ new) by
      obtain ⟨new, htells, hnarrated⟩ := hnew
      refine ⟨notices ++ new, h.tell hreset htells hnarrated, fun capacity => ?_⟩
      rw [TraceLog.tellAll_append]
      exact htells.records _
    by_cases hsubmit : ∃ step, operation = .submit step
    · obtain ⟨step, rfl⟩ := hsubmit
      exact ⟨_, tells_submit engine step, h.narrated.submit h.placed step rfl rfl⟩
    · push Not at hsubmit
      obtain ⟨new, htells, hcourse⟩ := h.placed.course_perform hsubmit hreset
      have hkeep : (engine.perform operation).1.keep tasks = tasks := by
        cases operation <;> first | rfl | simp_all
      rw [hkeep]
      exact ⟨new, htells, h.narrated.course hcourse (h.placed.perform operation)⟩

/-- Runs of the same operations differ in their logs only, and these are told
the same notices. -/
private theorem exists_chronicled (operations : List Operation) :
    ∃ answers engine notices, Chronicled (liveTasks answers) engine notices ∧
      ∀ capacity, (withTraceCapacity capacity).performAll operations =
        (answers, { engine with trace := (TraceLog.withCapacity capacity).tellAll notices }) := by
  induction operations using List.reverseRecOn with
  | nil =>
      refine ⟨[], withTraceCapacity 0, [], ⟨.withTraceCapacity 0, .withTraceCapacity 0, ?_, .nil,
        by simp⟩, fun capacity => rfl⟩
      exact .reset (withTraceCapacity 0)
  | append_singleton operations operation ih =>
      obtain ⟨answers, engine, notices, hchronicled, hruns⟩ := ih
      obtain ⟨next, hnext, hperform⟩ := hchronicled.perform operation
      refine ⟨_, _, next, liveTasks_concat answers _ ▸ hnext, fun capacity => ?_⟩
      rw [performAll_concat, hruns capacity]
      simp only [hperform capacity]

/-! ## What the history tells -/

private theorem history_eq {operations : List Operation} {answers : List Answer}
    (hruns : ∀ capacity, (withTraceCapacity capacity).performAll operations =
      (answers, { engine with trace := (TraceLog.withCapacity capacity).tellAll notices })) :
    history operations = notices.mapIdx Notice.event := by
  simp only [history, hruns, TraceLog.tellAll_withCapacity]
  rw [Nat.sub_eq_zero_of_le (Nat.le_max_left _ _), List.drop_zero]

/-- A log that was told some notices is the end of their history. -/
private theorem recorded_tellAll (h : notices.Pairwise (·.atMs ≤ ·.atMs)) (capacity : Nat) :
    ({ engine with trace := (TraceLog.withCapacity capacity).tellAll notices } : Engine).Recorded
      capacity (notices.mapIdx Notice.event) := by
  constructor
  · rw [TraceLog.tellAll_withCapacity]
    exact List.drop_suffix _ _
  · simp only [TraceLog.tellAll_withCapacity, List.length_drop, List.length_mapIdx]
    omega
  · intro position event hevent
    obtain ⟨notice, -, rfl⟩ : ∃ notice, notices[position]? = some notice ∧
        Notice.event position notice = event := by
      simpa using hevent
    rfl
  · simp only [TraceLog.tellAll_withCapacity, TraceLog.evicted, List.length_drop,
      List.length_mapIdx]
    omega
  · rw [List.pairwise_iff_getElem] at h ⊢
    intro first second hfirst hsecond hlt
    rw [List.length_mapIdx] at hfirst hsecond
    simpa [Notice.event] using h first second hfirst hsecond hlt

/-- The story that is told of a submitted task is that of the task as it is. -/
private theorem Chronicled.recounted (h : Chronicled tasks engine notices) {task : Task}
    (htask : task ∈ tasks) : engine.Recounted task (kindsAbout task.id notices) := by
  have hid : task.id ∈ engine.tasks.map Task.id :=
    h.placed.ids_perm.mem_iff.2 (List.mem_map_of_mem htask)
  obtain ⟨current, hcurrent, heq⟩ := List.mem_map.1 hid
  obtain ⟨place, hplace⟩ := mem_tasks.1 hcurrent
  obtain ⟨origin, horigin, horigin_id, -, hstory⟩ := h.narrated.stories place current hplace
  -- no two tasks are submitted with the same id
  have hnodup : (tasks.map Task.id).Nodup := h.placed.increasing.imp Nat.ne_of_lt
  obtain rfl : origin = task :=
    List.inj_on_of_nodup_map hnodup horigin htask (horigin_id.trans heq)
  rw [heq] at hstory
  obtain ⟨last, hlast, rfl, hstatus⟩ := hstory.last
  have hmem : origin.id ∈ engine.idsAt (origin.placeAfter last) :=
    mem_idsAt.2 ⟨current, hplace, heq⟩
  refine ⟨⟨last, hlast, hstatus ▸ hstory⟩, ?_, ?_⟩
  · rintro other hother second
    obtain rfl : last = other := Option.some.inj (hlast.symm.trans hother)
    constructor
    · exact fun hsecond => h.placed.place_eq hsecond hmem
    · rintro rfl
      exact hmem
  · rintro other hother
    obtain rfl : last = other := Option.some.inj (hlast.symm.trans hother)
    exact ⟨current, h.placed.task?_eq_some_iff.2 ⟨hcurrent, heq⟩, hstatus⟩

/-- **The log is the end of a history that tells the truth**: for every capacity
and every run, the events since the last reset are numbered and in order, the
log holds as many of them as it has room for, and apart from warnings they are
the stories of the tasks that were submitted, each up to where the task is. -/
theorem recorded_of_run (capacity : Nat) (operations : List Operation) :
    let (answers, engine) := (withTraceCapacity capacity).performAll operations
    engine.Recorded capacity (history operations) ∧
      (∀ task ∈ liveTasks answers,
        engine.Recounted task (eventsAbout task.id (history operations))) ∧
      ∀ event ∈ history operations, event.kind ≠ .warning →
        ∃ task ∈ liveTasks answers, event.taskId = some task.id := by
  obtain ⟨answers, engine, notices, hchronicled, hruns⟩ := exists_chronicled operations
  rw [history_eq hruns, hruns capacity]
  refine ⟨recorded_tellAll hchronicled.chronological capacity, fun task htask => ?_,
    fun event hevent hkind => ?_⟩
  · rw [eventsAbout_mapIdx]
    obtain ⟨hstory, hplace, hstatus⟩ := hchronicled.recounted htask
    exact ⟨hstory, hplace, hstatus⟩
  · obtain ⟨position, hposition, rfl⟩ := List.mem_mapIdx.1 hevent
    obtain ⟨task, htask, hid⟩ :=
      hchronicled.narrated.known _ (List.getElem_mem hposition) hkind
    exact ⟨task, htask, by rw [hid]; rfl⟩

-- one event fits into the log, and still the history has the whole story
example :
    let step := { Step.ofParseError "late" 1 with targetQueue := .pendingAsync, delayMs := 5 }
    let operations := [.submit step, .reset, .submit step, .advanceClock 5, .fail 2 "no", .start 2]
    ((withTraceCapacity 1).performAll operations).2.trace.evicted = 3 ∧
      eventsAbout 2 (history operations) = [.admitted, .timerElapsed, .error] := by
  decide +kernel

end Engine

end EventLoop
