import EventLoop.Proofs.Engine.Move

/-!
# The stories of tasks

What happens to a task is a `Story`: the task is admitted, its timer elapses if
it waits for one, it starts, and it completes or fails.  The last event of the
story tells where the task is and with which status.

Notices can tell all stories of an engine at once (`Narrated`).  A submission
begins a story, and each move of a course carries one on.
-/

namespace EventLoop

/-! ## Stories -/

/-- The events of a task until it is ready. -/
def Task.opening (task : Task) : List TraceKind :=
  .admitted :: if task.queue = .pendingAsync then [.timerElapsed] else []

/-- What can happen to a task that has been submitted, and the place and the
status to which it comes by that. -/
inductive Story (task : Task) : List TraceKind → Place → TaskStatus → Prop
  | admitted : Story task [.admitted] (.queued task.queue) task.queue.status
  | elapsed (waits : task.queue = .pendingAsync) :
      Story task [.admitted, .timerElapsed] (.queued .callbackQueue) .pending
  | started : Story task (task.opening ++ [.started]) .inFlight .executing
  | completed : Story task (task.opening ++ .started :: task.closing) .finished .completed
  | dropped : Story task [.admitted, .error] .finished .error
  | failed : Story task (task.opening ++ [.error]) .finished .error
  | aborted : Story task (task.opening ++ [.started, .error]) .finished .error

namespace Task

/-- The place of a task after the last event of its story. -/
def placeAfter (task : Task) : TraceKind → Place
  | .admitted | .warning => .queued task.queue
  | .timerElapsed => .queued .callbackQueue
  | .started => .inFlight
  | .completed | .result | .error => .finished

/-- The status of a task after the last event of its story. -/
def statusAfter (task : Task) : TraceKind → TaskStatus
  | .admitted | .warning => task.queue.status
  | .timerElapsed => .pending
  | .started => .executing
  | .completed | .result => .completed
  | .error => .error

theorem opening_of_waits {task : Task} (h : task.queue = .pendingAsync) :
    task.opening = [.admitted, .timerElapsed] := by
  simp [opening, h]

theorem opening_of_ready {task : Task} (h : task.queue ≠ .pendingAsync) :
    task.opening = [.admitted] := by
  simp [opening, h]

end Task

namespace Move

variable {task origin : Task} {source target : Place} {status : TaskStatus} {kinds : List TraceKind}

/-- A move depends on its task only by the payload. -/
theorem of_payload_eq (h : Move task source target status kinds)
    (hpayload : origin.payload = task.payload) : Move origin source target status kinds := by
  cases h with
  | elapse => exact .elapse
  | start ready => exact .start ready
  | complete =>
      have hclosing : task.closing = origin.closing := by simp [Task.closing, hpayload]
      exact hclosing ▸ .complete
  | fail unfinished => exact .fail unfinished

theorem warning_not_mem (h : Move task source target status kinds) : .warning ∉ kinds := by
  cases h with
  | elapse | start | fail => simp
  | complete =>
      unfold Task.closing
      split <;> simp

end Move

namespace Story

variable {task : Task} {kinds more : List TraceKind} {source target : Place}
  {status after : TaskStatus}

/-- A move carries a story on. -/
theorem move (h : Story task kinds source status) (hmove : Move task source target after more) :
    Story task (kinds ++ more) target after := by
  cases h with
  | admitted =>
      generalize hplace : Place.queued task.queue = place at hmove
      cases hmove with
      | elapse => exact .elapsed (Place.queued.inj hplace)
      | start ready =>
          have hopening := Task.opening_of_ready (Place.queued.inj hplace ▸ ready)
          exact hopening ▸ .started
      | complete => contradiction
      | fail => exact .dropped
  | elapsed waits =>
      have hopening := Task.opening_of_waits waits
      cases hmove with
      | start => exact hopening ▸ .started
      | fail => exact hopening ▸ .failed
  | started =>
      cases hmove with
      | complete => simpa using (Story.completed : Story task _ _ _)
      | fail => simpa using (Story.aborted : Story task _ _ _)
  | completed | dropped | failed | aborted =>
      -- nothing moves on from the last place
      cases hmove with
      | fail unfinished => exact absurd rfl unfinished

/-- The last event of a story tells where the task is. -/
theorem last (h : Story task kinds source status) : ∃ last, kinds.getLast? = some last ∧
    source = task.placeAfter last ∧ status = task.statusAfter last := by
  cases h with
  | admitted => exact ⟨.admitted, rfl, rfl, rfl⟩
  | elapsed => exact ⟨.timerElapsed, rfl, rfl, rfl⟩
  | started => exact ⟨.started, by simp, rfl, rfl⟩
  | completed =>
      by_cases hpayload : task.payload.isSome
      · exact ⟨.result, by simp [Task.closing, hpayload], rfl, rfl⟩
      · exact ⟨.completed, by simp [Task.closing, hpayload], rfl, rfl⟩
  | dropped => exact ⟨.error, rfl, rfl, rfl⟩
  | failed => exact ⟨.error, by simp, rfl, rfl⟩
  | aborted => exact ⟨.error, by simp, rfl, rfl⟩

end Story

/-! ## What is told of a task -/

/-- What notices tell of a task, apart from warnings. -/
def kindsAbout (id : Nat) (notices : List Notice) : List TraceKind :=
  (notices.filter fun notice => notice.taskId = id ∧ notice.kind ≠ .warning).map Notice.kind

/-- What events tell of a task, apart from warnings. -/
def eventsAbout (id : Nat) (events : List TraceEvent) : List TraceKind :=
  (events.filter fun event => event.taskId = some id ∧ event.kind ≠ .warning).map TraceEvent.kind

section About

variable {id : Nat} {notices : List Notice}

theorem eventsAbout_mapIdx (id : Nat) (notices : List Notice) :
    eventsAbout id (notices.mapIdx Notice.event) = kindsAbout id notices := by
  induction notices using List.reverseRecOn with
  | nil => rfl
  | append_singleton notices notice ih =>
      simp only [eventsAbout, kindsAbout] at ih ⊢
      rw [List.mapIdx_concat, List.filter_append, List.filter_append, List.map_append,
        List.map_append, ih]
      by_cases h : notice.taskId = id ∧ notice.kind ≠ .warning <;> simp [Notice.event, h]

theorem kindsAbout_append (id : Nat) (first second : List Notice) :
    kindsAbout id (first ++ second) = kindsAbout id first ++ kindsAbout id second := by
  simp [kindsAbout]

theorem kindsAbout_eq_nil (h : ∀ notice ∈ notices, notice.kind ≠ .warning → notice.taskId ≠ id) :
    kindsAbout id notices = [] := by
  simp only [kindsAbout, List.map_eq_nil_iff, List.filter_eq_nil_iff, decide_eq_true_eq, not_and]
  exact fun notice hnotice hid hkind => h notice hnotice hkind hid

theorem kindsAbout_eq_map (hid : ∀ notice ∈ notices, notice.taskId = id)
    (hkind : ∀ notice ∈ notices, notice.kind ≠ .warning) :
    kindsAbout id notices = notices.map Notice.kind := by
  rw [kindsAbout, List.filter_eq_self.2]
  exact fun notice hnotice => by simp [hid notice hnotice, hkind notice hnotice]

end About

namespace Engine

/-! ## Every task has its story -/

/-- Every task of an engine comes from a submitted one, with the story that
notices tell of it, and whatever else they tell is a warning. -/
structure Narrated (tasks : List Task) (engine : Engine) (notices : List Notice) : Prop where
  stories : ∀ place, ∀ task ∈ engine.tasksAt place, ∃ origin ∈ tasks, origin.id = task.id ∧
    origin.payload = task.payload ∧ Story origin (kindsAbout task.id notices) place task.status
  known : ∀ notice ∈ notices, notice.kind ≠ .warning → ∃ origin ∈ tasks, origin.id = notice.taskId

namespace Narrated

variable {engine next : Engine} {ids : List Nat} {tasks : List Task} {notices new : List Notice}

/-- Warnings are no part of a story. -/
private theorem stay (h : Narrated tasks engine notices) (hplaces : next.tasksAt = engine.tasksAt)
    (hwarnings : ∀ notice ∈ new, notice.kind = .warning) :
    Narrated tasks next (notices ++ new) := by
  refine ⟨fun place task htask => ?_, fun notice hnotice hkind => ?_⟩
  · have hnone : kindsAbout task.id new = [] :=
      kindsAbout_eq_nil fun notice hnotice hkind => absurd (hwarnings notice hnotice) hkind
    rw [kindsAbout_append, hnone, List.append_nil]
    exact h.stories place task (hplaces ▸ htask)
  · rcases List.mem_append.1 hnotice with hold | hnew
    · exact h.known notice hold hkind
    · exact absurd (hwarnings notice hnew) hkind

private theorem move (h : Narrated tasks engine notices) (hplaced : next.Placed ids)
    {source target : Place} {task moved : Task}
    (passage : Passage engine next source target task moved)
    (hmove : Move task source target moved.status (new.map Notice.kind))
    (habout : ∀ notice ∈ new, notice.taskId = task.id) (hpayload : moved.payload = task.payload) :
    Narrated tasks next (notices ++ new) := by
  have hkinds : ∀ notice ∈ new, notice.kind ≠ .warning := fun notice hnotice heq =>
    hmove.warning_not_mem (heq ▸ List.mem_map_of_mem hnotice)
  have htask : task ∈ engine.tasksAt source := passage.leaves.mem_iff.2 List.mem_cons_self
  have hmoved : moved ∈ next.tasksAt target := passage.enters.mem_iff.2 List.mem_cons_self
  obtain ⟨origin, horigin, hid, horiginal, hstory⟩ := h.stories source task htask
  refine ⟨fun place other hother => ?_, fun notice hnotice hkind => ?_⟩
  · rw [kindsAbout_append]
    by_cases heq : other.id = moved.id
    · -- the task that moved goes on with its story
      obtain ⟨rfl, rfl⟩ := hplaced.eq_of_id_eq place target hother hmoved heq
      have hnew : kindsAbout other.id new = new.map Notice.kind :=
        kindsAbout_eq_map (passage.id_eq ▸ habout) hkinds
      refine ⟨origin, horigin, hid.trans passage.id_eq.symm, horiginal.trans hpayload.symm, ?_⟩
      rw [hnew, passage.id_eq]
      exact hstory.move (hmove.of_payload_eq horiginal)
    · rcases passage.mem_or_eq hother with hold | ⟨-, rfl⟩
      · have hnone : kindsAbout other.id new = [] :=
          kindsAbout_eq_nil fun notice hnotice _ hsame =>
            heq (hsame.symm.trans ((habout notice hnotice).trans passage.id_eq.symm))
        rw [hnone, List.append_nil]
        exact h.stories place other hold
      · exact absurd rfl heq
  · rcases List.mem_append.1 hnotice with hold | hnew
    · exact h.known notice hold hkind
    · exact ⟨origin, horigin, hid.trans (habout notice hnew).symm⟩

/-- Notices tell nothing of a task that was not submitted. -/
private theorem kindsAbout_unknown (h : Narrated tasks engine notices) {id : Nat}
    (hid : ∀ origin ∈ tasks, origin.id ≠ id) : kindsAbout id notices = [] :=
  kindsAbout_eq_nil fun notice hnotice hkind heq => by
    obtain ⟨origin, horigin, horigin_id⟩ := h.known notice hnotice hkind
    exact hid origin horigin (horigin_id.trans heq)

/-- A submission begins the story of a new task. -/
theorem submit (h : Narrated tasks engine notices) (hplaced : engine.Placed (tasks.map Task.id))
    (step : Step) {notice : Notice} (hid : notice.taskId = engine.nextId)
    (hkind : notice.kind = .admitted) :
    Narrated (tasks ++ [Task.ofStep engine.nextId step]) (engine.submit step).2
      (notices ++ [notice]) := by
  -- the id of the notice is new
  have hne : ∀ origin ∈ tasks, origin.id ≠ engine.nextId := fun origin horigin =>
    (hplaced.lt_nextId _ (List.mem_map_of_mem horigin)).ne
  refine ⟨fun place task htask => ?_, fun other hother hnot_warning => ?_⟩
  · rw [kindsAbout_append]
    rcases (mem_tasksAt_submit engine step).1 htask with hold | ⟨rfl, rfl⟩
    · obtain ⟨origin, horigin, horigin_id, hpayload, hstory⟩ := h.stories place task hold
      have hnone : kindsAbout task.id [notice] = [] := by
        refine kindsAbout_eq_nil fun other hother _ heq => hne origin horigin ?_
        rw [horigin_id, ← heq, List.mem_singleton.1 hother, hid]
      rw [hnone, List.append_nil]
      exact ⟨origin, List.mem_append_left _ horigin, horigin_id, hpayload, hstory⟩
    · have hnew : kindsAbout engine.nextId [notice] = [.admitted] := by
        rw [kindsAbout_eq_map (by simp [hid]) (by simp [hkind])]
        simp [hkind]
      refine ⟨_, List.mem_append_right _ List.mem_cons_self, rfl, rfl, ?_⟩
      show Story _ (kindsAbout engine.nextId notices ++ kindsAbout engine.nextId [notice]) _ _
      rw [h.kindsAbout_unknown hne, hnew, (Place.holds_ofStep engine.nextId step).1.2]
      exact .admitted
  · rcases List.mem_append.1 hother with hold | hnew
    · obtain ⟨origin, horigin, horigin_id⟩ := h.known other hold hnot_warning
      exact ⟨origin, List.mem_append_left _ horigin, horigin_id⟩
    · rw [List.mem_singleton.1 hnew, hid]
      exact ⟨_, List.mem_append_right _ List.mem_cons_self, rfl⟩

/-- A course carries the stories of the tasks on. -/
theorem course (h : Narrated tasks engine notices) (hcourse : Course engine next new)
    (hplaced : next.Placed ids) : Narrated tasks next (notices ++ new) := by
  induction hcourse generalizing notices ids with
  | stay places _ warnings => exact h.stay places warnings
  | move passage hmove about payload => exact h.move hplaced passage hmove about payload
  | trans _ placed _ ihstart ihrest =>
      rw [← List.append_assoc]
      exact ihrest (ihstart h placed) hplaced

theorem reset (engine : Engine) : Narrated [] engine.reset [] := by
  refine ⟨fun place task htask => ?_, by simp⟩
  rw [tasksAt_reset] at htask
  contradiction

end Narrated

end Engine

end EventLoop
