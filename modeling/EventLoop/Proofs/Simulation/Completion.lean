import EventLoop.Proofs.Simulation.FastForward
import EventLoop.Proofs.Simulation.Termination

/-!
# What a run has done when it ends

A run stops at its limit or at the end of the script, whichever comes first, so
it comes to the end if as many ticks as the limit allows would
(`isDone_runFor`).  The limit itself has no part in what a tick does.

At the end the ledger has started every submission, and every step has been
submitted.  The executed tasks are therefore those of the steps, in some order:
each step has one entry, and there are no others (`executed_perm`).  This is so
with and without fast-forwarding; without it, however, the end is reached only
if time goes on or nothing is delayed.
-/

namespace EventLoop

/-- Sets the number of ticks after which a run stops. -/
def Config.setMaxTicks (config : Config) (maxTicks : Nat) : Config :=
  { config with ticker := { config.ticker with maxTicks } }

/-- How the start of the task of a step is told, without its time.  A task that
waits for a timer starts from the callback queue. -/
def Step.start (step : Step) (id : Nat) : ExecutedTask :=
  { id
    kind := .ofAction step.action
    queue := if step.targetQueue = .pendingAsync then .callbackQueue else step.targetQueue
    description := step.description
    sourceLine := step.sourceLine
    startedAtMs := 0 }

namespace Simulation

/-- Sets the number of ticks after which a run stops. -/
def setMaxTicks (simulation : Simulation) (maxTicks : Nat) : Simulation :=
  { simulation with settings := { simulation.settings with maxTicks } }

/-! ## The limit of a run -/

section Limit

variable (simulation : Simulation) (maxTicks : Nat)

theorem finishRunning_setMaxTicks :
    (simulation.setMaxTicks maxTicks).finishRunning.2 =
      simulation.finishRunning.2.setMaxTicks maxTicks := by
  obtain ⟨_, _, _, running, _, _, _, _⟩ := simulation
  cases running <;> rfl

theorem refill_setMaxTicks :
    (simulation.setMaxTicks maxTicks).refill = simulation.refill.setMaxTicks maxTicks := by
  unfold refill setMaxTicks
  dsimp only
  split <;> rfl

theorem moveTime_setMaxTicks :
    (simulation.setMaxTicks maxTicks).moveTime.2 = simulation.moveTime.2.setMaxTicks maxTicks := by
  unfold moveTime jump setMaxTicks virtualStepMs TickerConfig.virtualStepMs
  dsimp only
  split <;> rfl

theorem startNext_setMaxTicks :
    (simulation.setMaxTicks maxTicks).startNext.2 =
      simulation.startNext.2.setMaxTicks maxTicks := by
  unfold startNext setMaxTicks
  dsimp only
  split
  · rfl
  · split <;> rfl

/-- A tick does not look at the limit. -/
theorem tick_setMaxTicks :
    (simulation.setMaxTicks maxTicks).tick.2 = simulation.tick.2.setMaxTicks maxTicks := by
  have hfinish := simulation.finishRunning_setMaxTicks maxTicks
  have hrefill := refill_setMaxTicks
    { simulation.finishRunning.2 with ticks := simulation.ticks + 1 } maxTicks
  have hmove := moveTime_setMaxTicks
    ({ simulation.finishRunning.2 with ticks := simulation.ticks + 1 } : Simulation).refill maxTicks
  rw [← hrefill] at hmove
  rw [tick_snd, tick_snd, ← startNext_setMaxTicks]
  unfold beforeStart
  rw [hfinish, ← hmove]
  rfl

theorem performAll_ticks_setMaxTicks (ticks : Nat) :
    ∀ simulation : Simulation,
      (simulation.setMaxTicks maxTicks).performAll (List.replicate ticks .tick) =
        (simulation.performAll (List.replicate ticks .tick)).setMaxTicks maxTicks := by
  induction ticks with
  | zero => exact fun _ => rfl
  | succ ticks ih =>
      intro simulation
      have hrest := ih simulation.tick.2
      rw [← tick_setMaxTicks] at hrest
      exact hrest

end Limit

/-- A run stops at the end, if its limit lies behind it. -/
theorem isDone_runFor (limit : Nat) :
    ∀ (ticks : Nat) (simulation : Simulation), ticks ≤ limit →
      (simulation.performAll (List.replicate ticks .tick)).isDone = true →
        (runFor limit simulation).isDone = true := by
  induction limit with
  | zero =>
      intro ticks simulation hle hdone
      obtain rfl : ticks = 0 := Nat.le_zero.1 hle
      exact hdone
  | succ limit ih =>
      intro ticks simulation hle hdone
      rw [runFor]
      split
      · assumption
      · rename_i hnot
        cases ticks with
        | zero => exact absurd hdone hnot
        | succ ticks => exact ih ticks simulation.tick.2 (Nat.le_of_succ_le_succ hle) hdone

end Simulation

/-! ## The executed tasks at the end -/

theorem Submission.executedTask_ready {submission : Submission} {step : Step} {id : Nat}
    (htask : submission.task = Task.ofStep id step) :
    Simulation.executedTask submission.ready 0 = step.start id := by
  by_cases htarget : step.targetQueue = .pendingAsync <;>
    simp [Simulation.executedTask, Submission.ready, Submission.isTimed, Step.start, htask,
      Task.ofStep, htarget]

namespace Ledger.Balances

variable {ledger : Ledger} {submissions : List Submission} {simulation : Simulation}
  {first : Nat}

/-- What is told when all steps have been submitted and all submissions
started. -/
theorem map_executedTask (h : ledger.Balances submissions first simulation)
    (hupcoming : simulation.upcoming = []) :
    submissions.map (fun submission => Simulation.executedTask submission.ready 0) =
      simulation.extraction.steps.mapIdx fun index step => step.start (first + index) := by
  obtain ⟨done, hsteps, htasks, hlength⟩ := h.follows.exists_done
  rw [hupcoming, List.append_nil] at hsteps
  rw [hsteps]
  refine List.ext_getElem (by simp [hlength]) fun index hindex hdone => ?_
  rw [List.length_map] at hindex
  rw [List.length_mapIdx] at hdone
  have htask : submissions[index].task = Task.ofStep (first + index) done[index] := by
    have hget := congrArg (·[index]?) htasks
    simpa [Simulation.numbered, hindex, hdone] using hget
  rw [List.getElem_map, List.getElem_mapIdx, Submission.executedTask_ready htask]

/-- At the end each step has been started once. -/
theorem executed_perm (h : ledger.Balances submissions first simulation)
    (hdone : simulation.isDone = true) :
    (simulation.executed.map ExecutedTask.untimed).Perm
      (simulation.extraction.steps.mapIdx fun index step => step.start (first + index)) := by
  obtain ⟨hupcoming, hremaining⟩ := h.isDone_iff_remaining.1 hdone
  have hstarted : ledger.started.Perm submissions := by
    have hperm := h.accounts.ordered.perm
    rwa [(List.append_eq_nil_iff.1 hremaining).2, List.append_nil] at hperm
  have hexecuted : simulation.executed.map ExecutedTask.untimed =
      ledger.started.map fun submission => Simulation.executedTask submission.ready 0 := by
    refine h.executed_map fun submission executed hstarted => ?_
    rw [hstarted.executed_eq]
    rfl
  rw [hexecuted, ← h.map_executedTask hupcoming]
  exact hstarted.map _

end Ledger.Balances

namespace Chronicle

/-- After any ticks the submissions of a script are numbered from one. -/
theorem balances_runFor (source : String) (config : Config) (ticks : Nat) :
    ∃ ledger : Ledger, ledger.Balances (runFor ticks (load source config)).submissions 1
      (runFor ticks (load source config)).simulation := by
  refine runFor_induction (motive := fun chronicle => ∃ ledger : Ledger,
    ledger.Balances chronicle.submissions 1 chronicle.simulation) ?_ ticks _
      ⟨{}, .load source config⟩
  rintro chronicle ⟨ledger, h⟩
  exact ⟨_, h.tick⟩

theorem extraction_runFor (source : String) (config : Config) (ticks : Nat) :
    (runFor ticks (load source config)).simulation.extraction = extractSource source := by
  refine runFor_induction
    (motive := fun chronicle => chronicle.simulation.extraction = extractSource source) ?_ ticks _
      rfl
  exact fun chronicle h => chronicle.simulation.extraction_tick.trans h

end Chronicle

namespace Simulation

/-- A run that comes to the end has started each step once. -/
theorem executed_run_perm (source : String) (config : Config)
    (hdone : (load source config).run.isDone = true) :
    ((load source config).run.executed.map ExecutedTask.untimed).Perm
      ((extractSource source).steps.mapIdx fun index step => step.start (index + 1)) := by
  obtain ⟨ledger, h⟩ := Chronicle.balances_runFor source config config.ticker.maxTicks
  have hextraction := Chronicle.extraction_runFor source config config.ticker.maxTicks
  rw [Chronicle.simulation_runFor] at h hextraction
  have hperm := h.executed_perm hdone
  rw [hextraction] at hperm
  simp only [Nat.add_comm 1] at hperm
  exact hperm

/-- **When a run without fast-forwarding comes to the end**: just if a tick takes
time or no timer has a delay.  If it would come to the end in some ticks, then
every run whose limit is not below them does, and has executed each step of the
script exactly once. -/
theorem completes_without_fastForward (source : String) (config : Config)
    (hslow : config.ticker.fastForward = false) :
    ((load source config).Finishes ↔
        1 ≤ config.ticker.virtualStepMs ∨
          ∀ step ∈ (extractSource source).steps,
            step.targetQueue = .pendingAsync → step.delayMs = 0) ∧
      ∀ ticks maxTicks : Nat,
        ((load source config).performAll (List.replicate ticks .tick)).isDone = true →
          ticks ≤ maxTicks →
            let report := (load source (config.setMaxTicks maxTicks)).run.report
            report.completed = true ∧
              (report.executed.map ExecutedTask.untimed).Perm
                ((extractSource source).steps.mapIdx fun index step => step.start (index + 1)) := by
  constructor
  · have hprogress : (load source config).Progresses ↔
        config.ticker.fastForward = true ∨ 1 ≤ config.ticker.virtualStepMs ∨
          ∀ step ∈ (extractSource source).steps,
            step.targetQueue = .pendingAsync → step.delayMs = 0 := Iff.rfl
    rw [finishes_iff_progresses, hprogress, hslow]
    simp
  · intro ticks maxTicks hdone hle
    have hload : load source (config.setMaxTicks maxTicks) =
        (load source config).setMaxTicks maxTicks := rfl
    have hend : (load source (config.setMaxTicks maxTicks)).run.isDone = true := by
      refine isDone_runFor maxTicks ticks _ hle ?_
      rw [hload, performAll_ticks_setMaxTicks]
      exact hdone
    exact ⟨hend, executed_run_perm source _ hend⟩

/-- With ticks of two milliseconds a timer of three elapses in the second tick,
and the third one is the last. -/
theorem completes_without_fastForward_timer :
    let source := "setTimeout(f, 3); console.log(1)"
    let config : Config := { ticker := { intervalMs := 2, fastForward := false } }
    let report := (load source (config.setMaxTicks 7)).run.report
    config.ticker.fastForward = false ∧
      (1 ≤ config.ticker.virtualStepMs ∧ (load source config).Finishes) ∧
      ((load source config).performAll (List.replicate 3 .tick)).isDone = true ∧
      report.completed = true ∧
        (report.executed.map ExecutedTask.untimed).Perm
          ((extractSource source).steps.mapIdx fun index step => step.start (index + 1)) := by
  intro source config report
  have hslow : config.ticker.fastForward = false := rfl
  have hstep : 1 ≤ config.ticker.virtualStepMs := by decide +kernel
  have hdone : ((load source config).performAll (List.replicate 3 .tick)).isDone = true := by
    decide +kernel
  obtain ⟨hfinishes, hruns⟩ := completes_without_fastForward source config hslow
  exact ⟨hslow, ⟨hstep, hfinishes.2 (.inl hstep)⟩, hdone, hruns 3 7 hdone (by decide)⟩

end Simulation

end EventLoop
