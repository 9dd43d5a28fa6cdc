import EventLoop.Proofs.Engine.Refusal
import EventLoop.Proofs.Simulation.Account

/-!
# Starting and finishing tasks

Between two ticks at most one task executes.  The next tick ends it, with
`complete` or, if it stands for an error, with `fail`; then the tick starts the
task that is selected.  Of an engine that a ledger accounts for these calls
succeed.  The executing task is found because it is in flight and, as ids occur
once, in no container.  The task that is selected is the first of a container
whose tasks are pending, so it can be taken and started.
-/

namespace EventLoop

namespace Engine

/-! ## The end of an executing task -/

/-- What is different after an executing task has ended. -/
structure Ending (engine next : Engine) (task : Task) : Prop where
  inFlight_eq : next.inFlight = engine.inFlight.eraseP (·.id = task.id)
  finished_ids : next.finished.map Task.id = engine.finished.map Task.id ++ [task.id]
  queues_eq : next.queues = engine.queues
  timers_eq : next.timers = engine.timers
  clock_eq : next.clock = engine.clock
  quiet : engine.Quiet → next.Quiet

variable {engine : Engine} {ids : List Nat} {id : Nat} {task : Task}

theorem Quiet.recordResult (h : engine.Quiet) (task : Task) :
    (engine.recordResult task).Quiet := by
  unfold Engine.recordResult
  split
  · exact h
  · exact h.record task.id .result (by decide) _

theorem ending_complete (h : engine.inFlight.find? (·.id = id) = some task) :
    (engine.complete id).1 = .ok { task with status := .completed } ∧
      engine.Ending (engine.complete id).2 task := by
  obtain ⟨htimers, hclock, hqueues⟩ := complete_frame engine id
  obtain ⟨-, -, -, hid, -, -⟩ := Task.split_of_find? h
  refine ⟨by rw [complete_executing h], ?_, ?_, hqueues, htimers, hclock, ?_⟩
  · rw [complete_executing h, hid]
  · rw [complete_executing h]
    exact List.map_append
  · intro hquiet
    rw [complete_executing h]
    exact (hquiet.record id .completed (by decide) _).recordResult _

theorem ending_fail (h : engine.inFlight.find? (·.id = id) = some task) (reason : String) :
    (engine.fail id reason).1 = .ok { task with status := .error } ∧
      engine.Ending (engine.fail id reason).2 task := by
  obtain ⟨-, -, -, hid, -, -⟩ := Task.split_of_find? h
  rw [fail_executing h]
  refine ⟨rfl, ?_, List.map_append, rfl, rfl, rfl, ?_⟩
  · rw [hid]
    rfl
  · intro hquiet
    exact hquiet.record task.id .error (by decide) _

/-! ## The start of a task -/

/-- The first task of a container can be started, unless its tasks wait for
timers. -/
theorem Placed.start_head (h : engine.Placed ids) {queue : Queue} {rest : List Task}
    (hget : engine.queues.get queue = task :: rest) (hqueue : queue ≠ .pendingAsync) :
    engine.start task.id =
      (.ok { task with status := .executing },
        { engine.record task.id .started ("Started " ++ task.description) with
          queues := engine.queues.modify queue fun _ => rest
          inFlight := insertInFlight { task with status := .executing } engine.inFlight }) := by
  have hmem : task ∈ engine.queues.get queue := hget ▸ List.mem_cons_self
  obtain ⟨before, after, hfound⟩ := h.found hmem
  have hsplit := hget.symm.trans hfound.get_eq
  -- a task in front would have the same id
  have hbefore : before = [] := by
    cases before with
    | nil => rfl
    | cons first others =>
        obtain ⟨rfl, -⟩ := List.cons.inj hsplit
        exact absurd rfl (hfound.ne_of_mem_before _ List.mem_cons_self)
  subst hbefore
  obtain ⟨-, hrest⟩ := List.cons.inj hsplit
  have hstatus : task.status = .pending := by
    rw [(h.holds (.queued queue) task hmem).1.2]
    cases queue <;> first | rfl | contradiction
  rw [start_found hfound, if_pos hstatus, hrest]
  rfl

end Engine

namespace Simulation

/-- The call by which a simulation ends a task. -/
def finishCall (engine : Engine) (id : Nat) : Except EngineError Task × Engine :=
  match (engine.task? id).filter (·.kind = .error) with
  | some task => engine.fail id (task.payload.getD "parse error")
  | none => engine.complete id

variable {engine : Engine} {ids : List Nat} {task : Task}

theorem finish_snd (engine : Engine) (id : Nat) :
    (finish engine id).2 = (finishCall engine id).2 := by
  unfold finish finishCall
  cases (engine.task? id).filter (·.kind = .error) with
  | none => rfl
  | some task => rfl

theorem nextId_finishCall (engine : Engine) (id : Nat) :
    (finishCall engine id).2.nextId = engine.nextId := by
  unfold finishCall
  split
  · exact engine.nextId_fail id _
  · exact engine.nextId_complete id

theorem now_finishCall (engine : Engine) (id : Nat) :
    (finishCall engine id).2.now = engine.now := by
  unfold finishCall
  split
  · exact congrArg Clock.now (engine.clock_fail id _)
  · exact congrArg Clock.now (Engine.complete_frame engine id).2.1

theorem placed_finishCall (h : engine.Placed ids) (id : Nat) :
    (finishCall engine id).2.Placed ids := by
  unfold finishCall
  split
  · exact h.fail id _
  · exact h.complete id

/-- An executing task is ended by the call, and prints what its step prints. -/
theorem finishCall_executing (h : engine.Placed ids) (htask : task ∈ engine.inFlight) :
    (∃ ended, (finishCall engine task.id).1 = .ok ended) ∧
      (finish engine task.id).1 = consoleLine? task ∧
      engine.Ending (finishCall engine task.id).2 task := by
  have hfind := h.find?_inFlight htask
  unfold finishCall finish
  rw [h.task?_eq_some_iff.2 ⟨Engine.mem_tasks.2 ⟨.inFlight, htask⟩, rfl⟩]
  by_cases hkind : task.kind = .error
  · -- an error prints nothing, whatever its message is
    obtain ⟨hok, hending⟩ := Engine.ending_fail hfind (task.payload.getD "parse error")
    have hline : consoleLine? task = none := by simp [consoleLine?, hkind]
    simp only [Option.filter, hkind, decide_true, if_true]
    exact ⟨⟨_, hok⟩, hline.symm, hending⟩
  · obtain ⟨hok, hending⟩ := Engine.ending_complete hfind
    simp only [Option.filter, hkind, decide_false, Bool.false_eq_true, if_false, hok]
    exact ⟨⟨_, rfl⟩, rfl, hending⟩

end Simulation

namespace Ledger

variable {ledger : Ledger} {submissions : List Submission} {submission : Submission}
  {engine : Engine}

theorem consoleLine?_running (submission : Submission) :
    Simulation.consoleLine? submission.running = Simulation.consoleLine? submission.task := by
  unfold Submission.running Submission.ready
  split <;> rfl

namespace Accounts

protected theorem finish (h : ledger.Accounts submissions engine)
    (hcurrent : ledger.current = some submission) :
    (∃ ended, (Simulation.finishCall engine submission.task.id).1 = .ok ended) ∧
      (Simulation.finish engine submission.task.id).1 =
        Simulation.consoleLine? submission.task ∧
      ledger.finish.Accounts submissions (Simulation.finishCall engine submission.task.id).2 := by
  have hflight : engine.inFlight = [submission.running] := by
    rw [h.describes.inFlight_eq, hcurrent]
    rfl
  have hrunning : submission.running ∈ engine.inFlight := by simp [hflight]
  obtain ⟨hok, hline, hending⟩ := Simulation.finishCall_executing h.placed hrunning
  have hplaced := Simulation.placed_finishCall h.placed submission.task.id
  rw [submission.running_id] at hok hline hending
  have hnow : (Simulation.finishCall engine submission.task.id).2.now = engine.now :=
    congrArg Clock.now hending.clock_eq
  refine ⟨hok, hline.trans (consoleLine?_running submission), ⟨?_, ?_, hplaced, ?_,
    hending.quiet h.quiet, hnow.symm ▸ h.now_le⟩⟩
  · have hleft : (Simulation.finishCall engine submission.task.id).2.inFlight = [] := by
      rw [hending.inFlight_eq, hflight]
      simp
    have hended : (Simulation.finishCall engine submission.task.id).2.finished.map Task.id =
        ledger.finish.ended.map (·.task.id) := by
      rw [hending.finished_ids, h.describes.finished_ids]
      simp [Ledger.finish, started, hcurrent]
    have hqueues := hending.queues_eq
    exact ⟨hqueues ▸ h.describes.callStack_eq, hqueues ▸ h.describes.deferredQueue_eq,
      hqueues ▸ h.describes.callbackQueue_eq, hqueues ▸ h.describes.pendingAsync_perm,
      hending.timers_eq ▸ h.describes.timers_eq, hleft, hended⟩
  · rw [hnow]
    exact h.ordered.finish
  · rw [hending.timers_eq]
    exact h.scheduled.congr (by rw [hending.queues_eq]) (by rw [hending.clock_eq])

/-- The engine selects the task of the submission that is next. -/
theorem next?_eq (h : ledger.Accounts submissions engine) :
    engine.next? = ledger.next?.map (·.ready) := by
  have hlast : engine.queues.last? .callStack = ledger.stacked.head?.map (·.ready) := by
    have hlength := h.ordered.stacked_length_le
    simp only [Queues.last?, Queues.get, h.describes.callStack_eq]
    cases hstacked : ledger.stacked with
    | nil => rfl
    | cons first rest =>
        have hrest : rest = [] := List.eq_nil_of_length_eq_zero (by
          rw [hstacked, List.length_cons] at hlength
          omega)
        rw [hrest]
        rfl
  have hdeferred : engine.queues.head? .deferredQueue = ledger.deferred.head?.map (·.ready) := by
    simp only [Queues.head?, Queues.get, h.describes.deferredQueue_eq, List.head?_map]
  have hcalled : engine.queues.head? .callbackQueue = ledger.called.head?.map (·.ready) := by
    simp only [Queues.head?, Queues.get, h.describes.callbackQueue_eq, List.head?_map]
  rw [Engine.next?, hlast, hdeferred, hcalled, next?]
  cases ledger.deferred.head? <;> cases ledger.called.head? <;> rfl

/-- Wherever the task stands, all that the engine does is to take it from there
and to let it run. -/
theorem start_from (h : ledger.Accounts submissions engine) (queue : Queue)
    (hcurrent : ledger.current = none) {rest : List Task} (hqueue : queue ≠ .pendingAsync)
    (hget : engine.queues.get queue = submission.ready :: rest)
    (hdescribes : ∀ next : Engine, next.queues = engine.queues.modify queue (fun _ => rest) →
      next.timers = engine.timers → next.inFlight = [submission.running] →
      next.finished = engine.finished → ledger.start.Describes next) :
    (engine.start submission.task.id).1 = .ok submission.running ∧
      ledger.start.Accounts submissions (engine.start submission.task.id).2 := by
  have hflight : engine.inFlight = [] := by
    rw [h.describes.inFlight_eq, hcurrent]
    rfl
  rw [← submission.ready_id]
  have hplaced := h.placed.start submission.ready.id
  have hscheduled := h.scheduled.start h.placed submission.ready.id
  have hquiet := h.quiet.record submission.ready.id .started (by decide)
    ("Started " ++ submission.ready.description)
  rw [h.placed.start_head hget hqueue] at hplaced hscheduled ⊢
  refine ⟨rfl, ⟨hdescribes _ rfl rfl ?_ rfl, h.ordered.start hcurrent, hplaced, hscheduled,
    hquiet, h.now_le⟩⟩
  simp [hflight, Engine.insertInFlight, Submission.running]

protected theorem start (h : ledger.Accounts submissions engine) (hcurrent : ledger.current = none)
    (hnext : ledger.next? = some submission) :
    (engine.start submission.task.id).1 = .ok submission.running ∧
      ledger.start.Accounts submissions (engine.start submission.task.id).2 := by
  have hdescribes := h.describes
  rcases start_cases hnext with ⟨rest, hfirst, hledger⟩ | ⟨rest, hfirst, hledger⟩ |
    ⟨rest, hfirst, hledger⟩
  · refine h.start_from .deferredQueue hcurrent (by decide)
      (hdescribes.deferredQueue_eq.trans (by rw [hfirst]; rfl)) ?_
    intro next hqueues htimers hrun hended
    rw [hledger]
    exact ⟨by rw [hqueues]; exact hdescribes.callStack_eq, by rw [hqueues]; rfl,
      by rw [hqueues]; exact hdescribes.callbackQueue_eq,
      by rw [hqueues]; exact hdescribes.pendingAsync_perm,
      htimers ▸ hdescribes.timers_eq, hrun, hended ▸ hdescribes.finished_ids⟩
  · refine h.start_from .callbackQueue hcurrent (by decide)
      (hdescribes.callbackQueue_eq.trans (by rw [hfirst]; rfl)) ?_
    intro next hqueues htimers hrun hended
    rw [hledger]
    exact ⟨by rw [hqueues]; exact hdescribes.callStack_eq,
      by rw [hqueues]; exact hdescribes.deferredQueue_eq, by rw [hqueues]; rfl,
      by rw [hqueues]; exact hdescribes.pendingAsync_perm,
      htimers ▸ hdescribes.timers_eq, hrun, hended ▸ hdescribes.finished_ids⟩
  · refine h.start_from .callStack hcurrent (by decide)
      (hdescribes.callStack_eq.trans (by rw [hfirst]; rfl)) ?_
    intro next hqueues htimers hrun hended
    rw [hledger]
    exact ⟨by rw [hqueues]; rfl, by rw [hqueues]; exact hdescribes.deferredQueue_eq,
      by rw [hqueues]; exact hdescribes.callbackQueue_eq,
      by rw [hqueues]; exact hdescribes.pendingAsync_perm,
      htimers ▸ hdescribes.timers_eq, hrun, hended ▸ hdescribes.finished_ids⟩

end Accounts

end Ledger

end EventLoop
