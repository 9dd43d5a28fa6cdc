import EventLoop.Proofs.Simulation.Phases
import EventLoop.Proofs.Simulation.Service
import EventLoop.Proofs.Step.Walk

/-!
# The balance of a simulation

A ledger `Balances` a simulation if it accounts for the engine and agrees with
what the simulation itself keeps: the running task is the current submission,
the executed tasks are the started submissions one by one, the console has the
lines of the ended ones, and the submissions are the first steps of the
program, numbered without a gap.

A tick is followed phase by phase: `finishRunning` ends the current submission,
`refill` enters new ones, `moveTime` releases those that are due at the new
time, and `startNext` starts the next.  As each phase keeps the balance, every
chronicle has a ledger (`exists_ledger_performAll`).
-/

namespace EventLoop

namespace Ledger

variable {ledger : Ledger} {submissions : List Submission} {simulation : Simulation}

/-- While the call stack is empty, steps can be submitted up to the first one
that goes there. -/
theorem Accounts.submitUntilSync {engine : Engine} {steps : List Step}
    (h : ledger.Accounts submissions engine) (hstacked : ledger.stacked = [])
    (hqueues : ∀ step ∈ steps, step.targetQueue ≠ .callbackQueue) :
    ((Simulation.submissionsUntilSync engine steps).foldl submit ledger).Accounts
      (submissions ++ Simulation.submissionsUntilSync engine steps)
      (Simulation.submitUntilSync engine steps).2 := by
  induction steps generalizing ledger submissions engine with
  | nil =>
      rw [Simulation.submissionsUntilSync, List.append_nil]
      exact h
  | cons step rest ih =>
      have hfirst := h.submit hstacked (hqueues step List.mem_cons_self)
      by_cases hqueue : (engine.submit step).1.queue = .callStack
      · simp only [Simulation.submissionsUntilSync, Simulation.submitUntilSync, if_pos hqueue]
        exact hfirst
      · have hrest := ih hfirst ((stacked_submit _ hqueue).trans hstacked) fun other hother =>
          hqueues other (List.mem_cons_of_mem _ hother)
        rw [List.append_assoc] at hrest
        simp only [Simulation.submissionsUntilSync, Simulation.submitUntilSync, if_neg hqueue]
        exact hrest

end Ledger

/-! ## The balance -/

/-- A submission is the one that an executed task tells of, and its timer was
due when the task was started. -/
structure Submission.StartedAs (submission : Submission) (executed : ExecutedTask) : Prop where
  executed_eq :
    executed = Simulation.executedTask submission.ready executed.startedAtMs
  dueAt_le : submission.isTimed = true → submission.dueAt ≤ executed.startedAtMs

namespace Simulation

/-- The submissions are those of the first steps of the program, numbered from
an id on, and the other steps are still to come. -/
structure Follows (simulation : Simulation) (submissions : List Submission) (first : Nat) :
    Prop where
  program_eq : ∃ done, simulation.extraction.steps = done ++ simulation.upcoming ∧
    submissions.map (·.task) = numbered first done
  nextId_eq : simulation.engine.nextId = first + submissions.length

namespace Follows

variable {simulation : Simulation} {submissions : List Submission} {first : Nat}

theorem exists_done (h : simulation.Follows submissions first) :
    ∃ done, simulation.extraction.steps = done ++ simulation.upcoming ∧
      submissions.map (·.task) = numbered first done ∧ done.length = submissions.length := by
  obtain ⟨done, hsteps, htasks⟩ := h.program_eq
  have hlength := congrArg List.length htasks
  rw [List.length_map, length_numbered] at hlength
  exact ⟨done, hsteps, htasks, hlength.symm⟩

/-- The steps that a refill submits are the next ones of the program. -/
protected theorem refill (h : simulation.Follows submissions first) :
    simulation.refill.Follows (submissions ++ simulation.refillSubmissions) first := by
  unfold refillSubmissions Simulation.refill
  split
  · obtain ⟨done, hsteps, htasks, hlength⟩ := h.exists_done
    obtain ⟨more, hmore, hmoreTasks, hnext⟩ :=
      submitUntilSync_spec simulation.upcoming simulation.engine
    refine ⟨⟨done ++ more, ?_, ?_⟩, ?_⟩
    · rw [List.append_assoc, ← hmore]
      exact hsteps
    · rw [List.map_append, htasks, hmoreTasks, numbered_append, h.nextId_eq, hlength]
    · have hmoreLength := congrArg List.length hmoreTasks
      rw [List.length_map, length_numbered] at hmoreLength
      calc (submitUntilSync simulation.engine simulation.upcoming).2.nextId
          = simulation.engine.nextId + more.length := hnext
        _ = first + submissions.length + more.length := by rw [h.nextId_eq]
        _ = _ := by rw [List.length_append, hmoreLength, Nat.add_assoc]
  · rw [List.append_nil]
    exact h

end Follows

end Simulation

namespace Ledger

variable {ledger : Ledger} {submissions : List Submission} {simulation : Simulation}
  {first : Nat}

/-- A ledger agrees with a simulation whose submissions are numbered from an id
on. -/
structure Balances (ledger : Ledger) (submissions : List Submission) (first : Nat)
    (simulation : Simulation) : Prop where
  accounts : ledger.Accounts submissions simulation.engine
  follows : simulation.Follows submissions first
  running_eq : simulation.running = ledger.current.map (·.task.id)
  executed : List.Forall₂ Submission.StartedAs ledger.started simulation.executed
  startedAt_sorted : simulation.executed.Pairwise (·.startedAtMs ≤ ·.startedAtMs)
  startedAt_le : ∀ executed ∈ simulation.executed, executed.startedAtMs ≤ simulation.engine.now
  console_eq : simulation.console =
    ledger.ended.filterMap fun submission => Simulation.consoleLine? submission.task
  queues_ne : ∀ step ∈ simulation.extraction.steps, step.targetQueue ≠ .callbackQueue

namespace Balances

/-- A simulation that has not submitted a step balances the empty ledger. -/
theorem nil (simulation : Simulation) (haccounts : Accounts {} [] simulation.engine)
    (hupcoming : simulation.upcoming = simulation.extraction.steps)
    (hrunning : simulation.running = none) (hexecuted : simulation.executed = [])
    (hconsole : simulation.console = [])
    (hqueues : ∀ step ∈ simulation.extraction.steps, step.targetQueue ≠ .callbackQueue) :
    Balances {} [] simulation.engine.nextId simulation := by
  refine ⟨haccounts, ⟨⟨[], hupcoming.symm, rfl⟩, rfl⟩, hrunning, ?_, ?_, ?_, hconsole, hqueues⟩
  · rw [hexecuted]
    exact .nil
  · rw [hexecuted]
    exact .nil
  · simp [hexecuted]

/-- The number of ticks and the settings have no part in the balance. -/
theorem congr_settings (h : ledger.Balances submissions first simulation) (ticks : Nat)
    (settings : TickerConfig) :
    ledger.Balances submissions first { simulation with ticks, settings } :=
  ⟨h.accounts, ⟨h.follows.program_eq, h.follows.nextId_eq⟩, h.running_eq, h.executed,
    h.startedAt_sorted, h.startedAt_le, h.console_eq, h.queues_ne⟩

/-! ## The balance in a tick -/

protected theorem finishRunning (h : ledger.Balances submissions first simulation) :
    ledger.finish.Balances submissions first simulation.finishRunning.2 := by
  have hrunning := h.running_eq
  cases hcurrent : ledger.current with
  | none =>
      rw [hcurrent] at hrunning
      have hledger : ledger.finish = ledger := by
        simp only [Ledger.finish, started, hcurrent, Option.toList_none, List.append_nil]
        rw [← hcurrent]
      have hsame : simulation.finishRunning.2 = simulation := by
        simp only [Simulation.finishRunning, hrunning, Option.map_none]
      rw [hledger, hsame]
      exact h
  | some submission =>
      rw [hcurrent] at hrunning
      obtain ⟨-, hline, haccounts⟩ := h.accounts.finish hcurrent
      have hnext := Simulation.nextId_finishCall simulation.engine submission.task.id
      have hnow := Simulation.now_finishCall simulation.engine submission.task.id
      rw [← Simulation.finish_snd] at haccounts hnext hnow
      simp only [Simulation.finishRunning, hrunning, Option.map_some]
      refine ⟨haccounts, ⟨h.follows.program_eq, hnext.trans h.follows.nextId_eq⟩, rfl,
        started_finish.symm ▸ h.executed, h.startedAt_sorted, hnow.symm ▸ h.startedAt_le, ?_,
        h.queues_ne⟩
      have hended : ledger.finish.ended = ledger.ended ++ [submission] := by
        simp [Ledger.finish, started, hcurrent]
      rw [hended, List.filterMap_append, hline, h.console_eq]
      cases hconsole : Simulation.consoleLine? submission.task <;> simp [hconsole]

protected theorem refill (h : ledger.Balances submissions first simulation) :
    (simulation.refillSubmissions.foldl submit ledger).Balances
      (submissions ++ simulation.refillSubmissions) first simulation.refill := by
  have hfollows := h.follows.refill
  unfold Simulation.refillSubmissions Simulation.refill at hfollows ⊢
  by_cases hempty : simulation.engine.queues.callStack.isEmpty
  · have hstacked : ledger.stacked = [] := by
      have hmap := h.accounts.describes.callStack_eq
      rw [List.isEmpty_iff.1 hempty] at hmap
      exact List.map_eq_nil_iff.1 hmap.symm
    obtain ⟨done, hsteps, -⟩ := h.follows.program_eq
    obtain ⟨hcurrent, hended⟩ := started_foldl_submit
      (Simulation.submissionsUntilSync simulation.engine simulation.upcoming) ledger
    have haccounts := h.accounts.submitUntilSync hstacked fun step hstep =>
      h.queues_ne step (hsteps ▸ List.mem_append_right _ hstep)
    have hnow := Simulation.now_submitUntilSync simulation.upcoming simulation.engine
    rw [if_pos hempty, if_pos hempty] at hfollows ⊢
    refine ⟨haccounts, hfollows, ?_, ?_, h.startedAt_sorted, ?_, ?_, h.queues_ne⟩
    · exact h.running_eq.trans (by rw [hcurrent])
    · rw [started, hcurrent, hended]
      exact h.executed
    · rw [hnow]
      exact h.startedAt_le
    · rw [hended]
      exact h.console_eq
  · rw [if_neg hempty, if_neg hempty, List.append_nil]
    exact h

/-- A change of the engine alone is accounted for by a change of the ledger that
leaves alone what was started. -/
theorem with_engine (h : ledger.Balances submissions first simulation) {next : Engine}
    {changed : Ledger} (haccounts : changed.Accounts submissions next)
    (hcurrent : changed.current = ledger.current) (hended : changed.ended = ledger.ended)
    (hnextId : next.nextId = simulation.engine.nextId) (hnow : simulation.engine.now ≤ next.now) :
    changed.Balances submissions first { simulation with engine := next } := by
  have hstarted : changed.started = ledger.started := by rw [started, hcurrent, hended, started]
  exact ⟨haccounts, ⟨h.follows.program_eq, hnextId.trans h.follows.nextId_eq⟩,
    hcurrent ▸ h.running_eq, hstarted ▸ h.executed, h.startedAt_sorted,
    fun executed hmem => (h.startedAt_le executed hmem).trans hnow, hended ▸ h.console_eq,
    h.queues_ne⟩

protected theorem moveTime (h : ledger.Balances submissions first simulation) :
    (ledger.release simulation.moveTime.2.engine.now).Balances submissions first
      simulation.moveTime.2 := by
  have hle : simulation.engine.now ≤ later simulation.engine.now simulation.virtualStepMs :=
    Nat.le_min.2 ⟨h.accounts.now_le, Nat.le_add_right _ _⟩
  have hnow := simulation.engine.now_advanceClock simulation.virtualStepMs
  have hmoved := h.with_engine (h.accounts.advanceClock simulation.virtualStepMs) rfl rfl
    (simulation.engine.nextId_advanceClock _) (hnow.symm ▸ hle)
  unfold Simulation.moveTime Simulation.jump
  dsimp only
  split
  · -- a jump comes on top of the tick, so it ends at the later moment
    rename_i due _ _ _
    have hjump := (simulation.engine.advanceClock simulation.virtualStepMs).2.now_advanceClockTo due
    have hjumped := hmoved.with_engine (hmoved.accounts.advanceClockTo due) rfl rfl
      (Engine.nextId_advanceClockTo _ due) (hjump.symm ▸ Nat.le_max_left _ _)
    rw [release_release (by rw [← hnow]; exact Nat.le_max_left _ _), ← hjump] at hjumped
    exact hjumped
  · dsimp only
    rw [hnow]
    exact hmoved

/-- When tasks wait but none is ready, a jump makes the next one ready. -/
theorem waiting_moveTime (h : ledger.Balances submissions first simulation)
    (hforward : simulation.settings.fastForward = true)
    (hnext : (ledger.release simulation.moveTime.2.engine.now).next? = none) :
    (ledger.release simulation.moveTime.2.engine.now).waiting = [] := by
  have hmoved := h.accounts.advanceClock simulation.virtualStepMs
  have hnow := simulation.engine.now_advanceClock simulation.virtualStepMs
  have hselected := hmoved.next?_eq
  have htimers := hmoved.describes.timers_eq
  rw [← hnow] at hselected htimers
  cases hready : (simulation.engine.advanceClock simulation.virtualStepMs).2.next? with
  | some task =>
      rw [simulation.moveTime_stay (.inr (.inl (by simp [hready])))] at hnext
      rw [hready, hnext] at hselected
      contradiction
  | none =>
      cases hdue :
          (simulation.engine.advanceClock simulation.virtualStepMs).2.timers.nextDue? with
      | none =>
          have hempty : (simulation.engine.advanceClock
              simulation.virtualStepMs).2.timers.entries = [] := by
            simpa [Timers.nextDue?] using hdue
          rw [simulation.moveTime_stay (.inr (.inr hdue))]
          rw [hempty] at htimers
          exact List.map_eq_nil_iff.1 htimers.symm
      | some due =>
          -- the first of the waiting submissions is due where the jump ends
          obtain ⟨timer, hfirst, hdueAt⟩ := Option.map_eq_some_iff.1 hdue
          obtain ⟨others, hentries⟩ := List.head?_eq_some_iff.1 hfirst
          rw [hentries] at htimers
          obtain ⟨submission, rest, hwaiting, hkey, -⟩ := List.map_eq_cons_iff.1 htimers.symm
          have hsubmission : submission.dueAt = due := (congrArg Prod.fst hkey).trans hdueAt
          have hhorizon : submission.dueAt ≤ horizon := Nat.min_le_left _ _
          rw [simulation.moveTime_jump hforward hready hdue] at hnext
          dsimp only at hnext
          rw [Engine.now_advanceClockTo, ← release_release (Nat.le_max_left _ _)] at hnext
          have hcalled := (next?_eq_none_iff.1 hnext).2.1
          have hnone := (List.append_eq_nil_iff.1 hcalled).2
          rw [hwaiting, List.takeWhile_cons_of_pos (by simp; omega)] at hnone
          contradiction

/-- Nothing is started only if nothing is ready. -/
theorem startNext_eq_none_iff (h : ledger.Balances submissions first simulation)
    (hcurrent : ledger.current = none) :
    simulation.startNext.1 = none ↔ simulation.engine.next? = none := by
  have hselected := h.accounts.next?_eq
  cases hnext : ledger.next? with
  | none =>
      rw [hnext] at hselected
      rw [simulation.startNext_of_none hselected]
      exact ⟨fun _ => hselected, fun _ => rfl⟩
  | some submission =>
      rw [hnext, Option.map_some] at hselected
      obtain ⟨hok, -⟩ := h.accounts.start hcurrent hnext
      have hstarted : simulation.startNext.1 ≠ none := by
        unfold Simulation.startNext
        rw [hselected]
        dsimp only
        rw [submission.ready_id]
        split
        · exact Option.some_ne_none _
        · rename_i hstart
          rw [hstart] at hok
          contradiction
      rw [hselected]
      exact iff_of_false hstarted (Option.some_ne_none _)

protected theorem startNext (h : ledger.Balances submissions first simulation)
    (hcurrent : ledger.current = none) :
    ledger.start.Balances submissions first simulation.startNext.2 := by
  have hselected := h.accounts.next?_eq
  cases hnext : ledger.next? with
  | none =>
      rw [hnext] at hselected
      simp only [Simulation.startNext, hselected, Option.map_none]
      rw [start_eq_self hnext]
      exact h
  | some submission =>
      rw [hnext, Option.map_some] at hselected
      obtain ⟨hok, haccounts⟩ := h.accounts.start hcurrent hnext
      have hnow : (simulation.engine.start submission.task.id).2.now = simulation.engine.now :=
        congrArg Clock.now (simulation.engine.clock_start submission.task.id)
      have hnextId := simulation.engine.nextId_start submission.task.id
      have hrunning : ledger.start.current = some submission :=
        (current_start hcurrent).trans hnext
      have hstarted : ledger.start.started = ledger.started ++ [submission] := by
        rw [started, hrunning, ended_start, started, hcurrent]
        simp
      simp only [Simulation.startNext, hselected, submission.ready_id]
      generalize simulation.engine.start submission.task.id = call
        at hok haccounts hnow hnextId
      obtain ⟨answer, next⟩ := call
      dsimp only at hok haccounts hnow hnextId ⊢
      subst hok
      dsimp only
      refine ⟨haccounts, ⟨h.follows.program_eq, hnextId.trans h.follows.nextId_eq⟩, ?_, ?_, ?_, ?_,
        ?_, h.queues_ne⟩
      · rw [hrunning, Option.map_some, submission.running_id]
      · have hdue : submission.isTimed = true → submission.dueAt ≤ next.now := fun htimed =>
          haccounts.ordered.dueAt_le submission (by simp [hstarted, htimed])
        rw [hstarted]
        exact List.rel_append h.executed (.cons ⟨rfl, hdue⟩ .nil)
      · refine List.pairwise_append.2 ⟨h.startedAt_sorted, List.pairwise_singleton _ _, ?_⟩
        intro executed hmem last hlast
        rw [List.mem_singleton.1 hlast]
        exact (h.startedAt_le executed hmem).trans hnow.ge
      · intro executed hmem
        rcases List.mem_append.1 hmem with hmem | hmem
        · exact (h.startedAt_le executed hmem).trans hnow.ge
        · rw [List.mem_singleton.1 hmem]
          exact Nat.le_refl _
      · rw [ended_start]
        exact h.console_eq

end Balances

/-! ## Ticks -/

/-- A ledger in a tick that enters submissions and moves time to a moment, when
the tick is about to start a task. -/
def beforeStart (ledger : Ledger) (entered : List Submission) (moment : Nat) : Ledger :=
  (entered.foldl submit ledger.finish).release moment

/-- What becomes of a ledger in a tick. -/
def tick (ledger : Ledger) (entered : List Submission) (moment : Nat) : Ledger :=
  (ledger.beforeStart entered moment).start

theorem current_beforeStart (ledger : Ledger) (entered : List Submission) (moment : Nat) :
    (ledger.beforeStart entered moment).current = none :=
  (started_foldl_submit entered ledger.finish).1

namespace Balances

theorem refilled (h : ledger.Balances submissions first simulation) :
    (simulation.tickSubmissions.foldl submit ledger.finish).Balances
      (submissions ++ simulation.tickSubmissions) first
      ({ simulation.finishRunning.2 with ticks := simulation.ticks + 1 } : Simulation).refill :=
  (h.finishRunning.congr_settings (simulation.ticks + 1) _).refill

protected theorem beforeStart (h : ledger.Balances submissions first simulation) :
    (ledger.beforeStart simulation.tickSubmissions simulation.beforeStart.engine.now).Balances
      (submissions ++ simulation.tickSubmissions) first simulation.beforeStart :=
  h.refilled.moveTime

/-- A tick leaves steps to come only if it can start a task. -/
theorem upcoming_beforeStart (h : ledger.Balances submissions first simulation) (moment : Nat)
    (hstacked : (ledger.beforeStart simulation.tickSubmissions moment).stacked = []) :
    simulation.beforeStart.upcoming = [] := by
  obtain ⟨engine, hmove⟩ := Simulation.moveTime_frame
    ({ simulation.finishRunning.2 with ticks := simulation.ticks + 1 } : Simulation).refill
  have hcallStack := h.refilled.accounts.describes.callStack_eq
  have hnone : (simulation.tickSubmissions.foldl submit ledger.finish).stacked = [] := hstacked
  rw [hnone] at hcallStack
  rw [Simulation.beforeStart, hmove]
  exact Simulation.upcoming_refill _ hcallStack

/-- A tick that fast-forwards leaves tasks waiting only if it can start one. -/
theorem waiting_beforeStart (h : ledger.Balances submissions first simulation)
    (hforward : simulation.settings.fastForward = true)
    (hnext : (ledger.beforeStart simulation.tickSubmissions
      simulation.beforeStart.engine.now).next? = none) :
    (ledger.beforeStart simulation.tickSubmissions
      simulation.beforeStart.engine.now).waiting = [] := by
  obtain ⟨engine, hfinish⟩ := simulation.finishRunning_frame
  refine h.refilled.waiting_moveTime ?_ hnext
  obtain ⟨_, _, hrefill⟩ := Simulation.refill_frame
    ({ simulation.finishRunning.2 with ticks := simulation.ticks + 1 } : Simulation)
  rw [hrefill, hfinish]
  exact hforward

protected theorem tick (h : ledger.Balances submissions first simulation) :
    (ledger.tick simulation.tickSubmissions simulation.tick.2.engine.now).Balances
      (submissions ++ simulation.tickSubmissions) first simulation.tick.2 := by
  have hstarted := h.beforeStart.startNext (ledger.current_beforeStart _ _)
  rw [← Simulation.now_startNext] at hstarted
  rw [Simulation.tick_snd]
  exact hstarted

/-! ## Commands -/

theorem load (source : String) (config : Config) :
    Balances {} [] 1 (.load source config) := by
  have haccounts : Accounts {} [] (.withTraceCapacity config.engine.traceCapacity) :=
    .nil (.withTraceCapacity _) rfl rfl rfl (Nat.zero_le _)
  exact .nil (.load source config) haccounts rfl rfl rfl rfl fun step hstep =>
    (wellMade_extractSource source step hstep).targetQueue_ne

protected theorem setSpeed (h : ledger.Balances submissions first simulation) (speed : Float) :
    ledger.Balances submissions first (simulation.setSpeed speed) := by
  unfold Simulation.setSpeed
  split
  · exact h.congr_settings simulation.ticks _
  · exact h

protected theorem restart (h : ledger.Balances submissions first simulation) :
    Balances {} [] simulation.engine.nextId simulation.restart := by
  have haccounts : Accounts {} [] simulation.engine.reset :=
    .nil (.reset _) rfl rfl rfl (Nat.zero_le _)
  exact .nil simulation.restart haccounts rfl rfl rfl rfl h.queues_ne

end Balances

end Ledger

namespace Chronicle

/-- The id of the first submission. -/
def firstId (chronicle : Chronicle) : Nat :=
  chronicle.simulation.engine.nextId - chronicle.submissions.length

/-- The tasks of all steps of the program, those that are still to be submitted
with the ids that they will get. -/
def program (chronicle : Chronicle) : List Task :=
  Simulation.numbered chronicle.firstId chronicle.simulation.extraction.steps

/-- **Every chronicle has a ledger.** -/
theorem exists_ledger_performAll (source : String) (config : Config)
    (commands : List Simulation.Command) :
    let chronicle := (load source config).performAll commands
    ∃ ledger : Ledger,
      ledger.Balances chronicle.submissions chronicle.firstId chronicle.simulation := by
  have hbalances : ∃ (ledger : Ledger) (first : Nat),
      ledger.Balances ((load source config).performAll commands).submissions first
        ((load source config).performAll commands).simulation := by
    refine performAll_induction
      (motive := fun chronicle => ∃ (ledger : Ledger) (first : Nat),
        ledger.Balances chronicle.submissions first chronicle.simulation) ?_ ?_ ?_ ?_ commands
    · exact ⟨{}, _, .load source config⟩
    · rintro chronicle ⟨ledger, first, h⟩
      exact ⟨_, first, h.tick⟩
    · rintro chronicle speed ⟨ledger, first, h⟩
      exact ⟨ledger, first, h.setSpeed speed⟩
    · rintro chronicle ⟨ledger, first, h⟩
      exact ⟨{}, _, h.restart⟩
  obtain ⟨ledger, first, h⟩ := hbalances
  have hfirst : ((load source config).performAll commands).firstId = first := by
    rw [firstId, h.follows.nextId_eq]
    omega
  exact ⟨ledger, hfirst.symm ▸ h⟩

end Chronicle

end EventLoop
