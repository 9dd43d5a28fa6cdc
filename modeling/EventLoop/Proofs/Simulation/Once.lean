import EventLoop.Proofs.Simulation.Order
import Mathlib.Data.List.Chain

/-!
# Every step once

A simulation discards the refusals of its engine, so a task that got lost on
its way would not be noticed.  None does: the calls by which a tick ends and
starts tasks all succeed, no refusal is ever on record, and each executed task
is that of exactly one submitted step.  What is finished is what was executed,
in the same order, without the task that is running; and a simulation is done
when this has happened to every step of the program.

All but the reports is read off the ledger of a chronicle.
-/

namespace EventLoop

namespace Simulation

/-- The answers of the engine to the calls by which a tick ends the running
task and starts the next one. -/
def tickCalls (simulation : Simulation) : List (Except EngineError Task) :=
  (simulation.running.map fun id => (finishCall simulation.engine id).1).toList ++
    (simulation.beforeStart.engine.next?.map fun task =>
      (simulation.beforeStart.engine.start task.id).1).toList

end Simulation

namespace Ledger

variable {ledger : Ledger} {submissions : List Submission} {simulation : Simulation}
  {first : Nat}

/-- The submissions that have not ended. -/
def remaining (ledger : Ledger) : List Submission :=
  ledger.current.toList ++
    (ledger.deferred ++ ledger.stacked ++ (ledger.called ++ ledger.waiting))

theorem Ordered.perm_remaining {now : Nat} (h : ledger.Ordered submissions now) :
    (ledger.ended ++ ledger.remaining).Perm submissions := by
  have hperm := h.perm
  rw [started, List.append_assoc] at hperm
  exact hperm

namespace Balances

/-- The calls of a tick are answered with the tasks they are about. -/
theorem tickCalls_succeed (h : ledger.Balances submissions first simulation) :
    ∀ answer ∈ simulation.tickCalls, ∃ task, answer = .ok task := by
  intro answer hanswer
  rcases List.mem_append.1 hanswer with hfinish | hstart
  · rw [h.running_eq] at hfinish
    cases hcurrent : ledger.current with
    | none => simp [hcurrent] at hfinish
    | some submission =>
        obtain ⟨hok, -, -⟩ := h.accounts.finish hcurrent
        rw [hcurrent] at hfinish
        rw [List.mem_singleton.1 hfinish]
        exact hok
  · have hbefore := h.beforeStart.accounts
    rw [hbefore.next?_eq] at hstart
    cases hnext : (ledger.beforeStart simulation.tickSubmissions
        simulation.beforeStart.engine.now).next? with
    | none => simp [hnext] at hstart
    | some submission =>
        obtain ⟨hok, -⟩ := hbefore.start (ledger.current_beforeStart _ _) hnext
        rw [hnext] at hstart
        rw [← submission.ready_id] at hok
        rw [List.mem_singleton.1 hstart]
        exact ⟨_, hok⟩

theorem inFlight_ids (h : ledger.Balances submissions first simulation) :
    simulation.engine.inFlight.map Task.id = simulation.running.toList := by
  rw [h.accounts.describes.inFlight_eq, h.running_eq]
  cases ledger.current <;> simp

theorem callStack_length_le (h : ledger.Balances submissions first simulation) :
    simulation.engine.queues.callStack.length ≤ 1 := by
  rw [h.accounts.describes.callStack_eq, List.length_map]
  exact h.accounts.ordered.stacked_length_le

/-- The executed tasks are the finished ones and the running one. -/
theorem executed_eq_finished (h : ledger.Balances submissions first simulation) :
    simulation.executed.map (·.id) =
      simulation.engine.finished.map Task.id ++ simulation.running.toList := by
  rw [h.executed_ids, h.accounts.describes.finished_ids, h.running_eq, started, List.map_append]
  cases ledger.current <;> rfl

/-- The steps that are still to be submitted are those after the submitted
ones. -/
theorem upcoming_eq (h : ledger.Balances submissions first simulation) :
    simulation.upcoming = simulation.extraction.steps.drop submissions.length := by
  obtain ⟨done, hsteps, -, hlength⟩ := h.follows.exists_done
  rw [hsteps, ← hlength, List.drop_left]

theorem submission_ids_nodup (h : ledger.Balances submissions first simulation) :
    (submissions.map (·.task.id)).Nodup :=
  h.accounts.placed.increasing.imp Nat.ne_of_lt

theorem executed_nodup (h : ledger.Balances submissions first simulation) :
    (simulation.executed.map (·.id)).Nodup := by
  have hids := (h.accounts.ordered.perm.map (·.task.id)).nodup_iff.2 h.submission_ids_nodup
  rw [List.map_append] at hids
  rw [h.executed_ids]
  exact (List.nodup_append.1 hids).1

/-! ## The end -/

/-- A simulation is done when nothing is left to submit and the ledger has
ended every submission. -/
theorem isDone_iff_remaining (h : ledger.Balances submissions first simulation) :
    simulation.isDone = true ↔ simulation.upcoming = [] ∧ ledger.remaining = [] := by
  have hdescribes := h.accounts.describes
  have hpending := hdescribes.pendingAsync_perm.length_eq
  have hrunning := h.running_eq
  have hsize : simulation.engine.queues.size = ledger.stacked.length + ledger.waiting.length +
      ledger.called.length + ledger.deferred.length := by
    rw [Queues.size, hdescribes.callStack_eq, hdescribes.callbackQueue_eq,
      hdescribes.deferredQueue_eq, hpending]
    simp only [List.length_map]
  have hremaining : ledger.remaining = [] ↔
      ledger.current = none ∧ simulation.engine.queues.size = 0 := by
    rw [← List.length_eq_zero_iff, remaining]
    cases ledger.current with
    | some submission => simp
    | none =>
        rw [hsize]
        simp only [Option.toList_none, List.nil_append, List.length_append, Nat.add_eq_zero_iff]
        tauto
  have hflight : simulation.engine.inFlight = [] ↔ ledger.current = none := by
    rw [hdescribes.inFlight_eq]
    cases ledger.current <;> simp
  rw [hremaining]
  simp only [Simulation.isDone, Engine.isIdle, Queues.isEmpty, Bool.and_eq_true,
    List.isEmpty_iff, Option.isNone_iff_eq_none, decide_eq_true_eq, hrunning, hflight,
    Option.map_eq_none_iff]
  tauto

/-- A simulation is done when every step of its program has been executed and
finished. -/
theorem isDone_iff_finished (h : ledger.Balances submissions first simulation) :
    simulation.isDone = true ↔
      ∀ task ∈ Simulation.numbered first simulation.extraction.steps,
        task.id ∈ simulation.executed.map (·.id) ∧
          task.id ∈ simulation.engine.finished.map Task.id := by
  have hperm := h.accounts.ordered.perm_remaining
  have hnodup := (hperm.map (·.task.id)).nodup_iff.2 h.submission_ids_nodup
  rw [List.map_append] at hnodup
  have hfinished := h.accounts.describes.finished_ids
  obtain ⟨done, hsteps, htasks, hlength⟩ := h.follows.exists_done
  rw [h.isDone_iff_remaining]
  constructor
  · rintro ⟨hupcoming, hremaining⟩ task htask
    rw [hupcoming, List.append_nil] at hsteps
    rw [hremaining, List.append_nil] at hperm
    rw [hsteps, ← htasks] at htask
    obtain ⟨submission, hsubmission, rfl⟩ := List.mem_map.1 htask
    have hended : submission.task.id ∈ simulation.engine.finished.map Task.id := by
      rw [hfinished]
      exact List.mem_map_of_mem (hperm.mem_iff.2 hsubmission)
    refine ⟨?_, hended⟩
    rw [h.executed_eq_finished]
    exact List.mem_append_left _ hended
  · intro hall
    have hended : ∀ task ∈ Simulation.numbered first simulation.extraction.steps,
        task.id ∈ ledger.ended.map (·.task.id) := fun task htask =>
      hfinished ▸ (hall task htask).2
    constructor
    · -- the next step would have an id that no submission has
      by_contra hne
      obtain ⟨step, rest, hupcoming⟩ := List.exists_cons_of_ne_nil hne
      have hmem := hended (Task.ofStep (first + done.length) step) (by
        rw [hsteps, hupcoming, Simulation.numbered_append, Simulation.numbered_cons]
        simp)
      obtain ⟨submission, hsubmission, hid⟩ := List.mem_map.1 hmem
      have hlt := h.accounts.placed.lt_nextId submission.task.id
        (List.mem_map_of_mem (hperm.mem_iff.1 (List.mem_append_left _ hsubmission)))
      rw [h.follows.nextId_eq, ← hlength, hid] at hlt
      exact Nat.lt_irrefl _ hlt
    · refine List.eq_nil_iff_forall_not_mem.2 fun submission hmem => ?_
      have hsubmitted : submission ∈ submissions :=
        hperm.mem_iff.1 (List.mem_append_right _ hmem)
      have hprogram := h.submissions_prefix.subset (List.mem_map_of_mem hsubmitted)
      exact (List.nodup_append.1 hnodup).2.2 _ (hended _ hprogram) _
        (List.mem_map_of_mem hmem) rfl

end Balances

end Ledger

/-! ## Reports -/

namespace Chronicle

/-- The reports of the ticks are numbered from one, and each tick finishes what
the one before it started. -/
structure Reported (chronicle : Chronicle) : Prop where
  chain : List.IsChain (fun first second : TickReport =>
    second.tick = first.tick + 1 ∧ second.finished = first.started.map (·.id)) chronicle.reports
  head : ∀ report ∈ chronicle.reports.head?, report.tick = 1 ∧ report.finished = none
  last : ∀ report ∈ chronicle.reports.getLast?,
    report.tick = chronicle.simulation.ticks ∧
      report.started.map (·.id) = chronicle.simulation.running
  nil : chronicle.reports = [] →
    chronicle.simulation.ticks = 0 ∧ chronicle.simulation.running = none

namespace Reported

variable {chronicle : Chronicle}

protected theorem tick (h : chronicle.Reported) : chronicle.tick.Reported := by
  obtain ⟨htick, hfinished⟩ := chronicle.simulation.tick_report
  refine ⟨?_, ?_, ?_, ?_⟩
  · refine List.isChain_append.2 ⟨h.chain, List.isChain_singleton _, ?_⟩
    intro last hlast report hreport
    obtain ⟨hcount, hstarted⟩ := h.last last hlast
    rw [← Option.some.inj hreport]
    exact ⟨by rw [htick, hcount], by rw [hfinished, hstarted]⟩
  · intro report hreport
    cases hreports : chronicle.reports with
    | nil =>
        obtain ⟨hcount, hnone⟩ := h.nil hreports
        have heq : chronicle.simulation.tick.1 = report := by
          simpa [Chronicle.tick, hreports] using hreport
        rw [← heq, htick, hfinished, hcount, hnone]
        exact ⟨rfl, rfl⟩
    | cons first rest =>
        refine h.head report ?_
        simpa [Chronicle.tick, hreports] using hreport
  · intro report hreport
    have heq : chronicle.simulation.tick.1 = report := by
      simpa [Chronicle.tick] using hreport
    rw [← heq]
    exact ⟨htick.trans chronicle.simulation.ticks_tick.symm,
      chronicle.simulation.running_tick.symm⟩
  · intro hnil
    simp [Chronicle.tick] at hnil

end Reported

theorem reported_performAll (source : String) (config : Config)
    (commands : List Simulation.Command) :
    ((load source config).performAll commands).Reported := by
  refine performAll_induction ?_ (fun _ h => h.tick) ?_ ?_ commands
  · exact ⟨.nil, by simp [load], by simp [load], fun _ => ⟨rfl, rfl⟩⟩
  · intro chronicle speed h
    unfold Simulation.setSpeed
    split
    · exact ⟨h.chain, h.head, h.last, h.nil⟩
    · exact h
  · intro chronicle _
    exact ⟨.nil, by simp, by simp, fun _ => ⟨rfl, rfl⟩⟩

/-! ## Every step once -/

/-- Each step of the program is submitted, executed and finished at most once,
no call is refused, and the simulation is done when all steps are. -/
structure EachOnce (chronicle : Chronicle) : Prop where
  /-- The submitted tasks are those of the first steps, the others are still to
  come. -/
  submissions_prefix : chronicle.submissions.map (·.task) <+: chronicle.program
  upcoming_eq : chronicle.simulation.upcoming =
    chronicle.simulation.extraction.steps.drop chronicle.submissions.length
  /-- Nothing executes but the running task. -/
  inFlight_ids : chronicle.simulation.engine.inFlight.map Task.id =
    chronicle.simulation.running.toList
  callStack_length_le : chronicle.simulation.engine.queues.callStack.length ≤ 1
  /-- An executed task is that of exactly one submitted step. -/
  existsUnique_submission : ∀ executed ∈ chronicle.simulation.executed,
    ∃! submission, submission ∈ chronicle.submissions ∧ submission.task.id = executed.id
  submission_ids_nodup : (chronicle.submissions.map (·.task.id)).Nodup
  executed_nodup : (chronicle.simulation.executed.map (·.id)).Nodup
  /-- The finished tasks are the executed ones in their order, without the one
  that is running. -/
  executed_eq_finished : chronicle.simulation.executed.map (·.id) =
    chronicle.simulation.engine.finished.map Task.id ++ chronicle.simulation.running.toList
  /-- The calls of the next tick succeed. -/
  tickCalls_succeed : ∀ answer ∈ chronicle.simulation.tickCalls, ∃ task, answer = .ok task
  /-- No refusal is on record. -/
  quiet : ∀ event ∈ chronicle.simulation.engine.trace.events, event.kind ≠ .warning
  /-- A tick finishes what the tick before it started. -/
  reported : chronicle.Reported
  isDone_iff : chronicle.simulation.isDone = true ↔
    ∀ task ∈ chronicle.program,
      task.id ∈ chronicle.simulation.executed.map (·.id) ∧
        task.id ∈ chronicle.simulation.engine.finished.map Task.id

/-- **Every step is executed once and no call fails**, whatever the script, the
configuration and the commands since the script was loaded. -/
theorem eachOnce_performAll (source : String) (config : Config)
    (commands : List Simulation.Command) :
    ((load source config).performAll commands).EachOnce := by
  have hreported := reported_performAll source config commands
  obtain ⟨ledger, h⟩ := exists_ledger_performAll source config commands
  refine
    { submissions_prefix := h.submissions_prefix
      upcoming_eq := h.upcoming_eq
      inFlight_ids := h.inFlight_ids
      callStack_length_le := h.callStack_length_le
      existsUnique_submission := ?_
      submission_ids_nodup := h.submission_ids_nodup
      executed_nodup := h.executed_nodup
      executed_eq_finished := h.executed_eq_finished
      tickCalls_succeed := h.tickCalls_succeed
      quiet := h.accounts.quiet
      reported := hreported
      isDone_iff := h.isDone_iff_finished }
  intro executed hexecuted
  have hid : executed.id ∈ ledger.started.map (·.task.id) :=
    h.executed_ids ▸ List.mem_map_of_mem hexecuted
  obtain ⟨submission, hstarted, heq⟩ := List.mem_map.1 hid
  have hmem := h.accounts.ordered.mem_of_started hstarted
  refine ⟨submission, ⟨hmem, heq⟩, ?_⟩
  rintro other ⟨hother, hsame⟩
  exact List.inj_on_of_nodup_map h.submission_ids_nodup hother hmem (hsame.trans heq.symm)

end Chronicle

end EventLoop
