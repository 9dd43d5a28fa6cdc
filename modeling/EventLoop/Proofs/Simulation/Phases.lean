import EventLoop.Proofs.Engine.Schedule
import EventLoop.Proofs.Simulation.Chronicle

/-!
# The phases of a tick

What the phases of a tick do to a simulation, apart from what they do to the
tasks of its engine.  The steps that a tick submits are numbered without a gap
(`submitUntilSync_spec`), and steps are left over only if one of them is on the
call stack.  Each phase has its frame: the parts of the simulation that it
leaves alone.  Together they say that everything a tick changes outside of the
engine and the steps to come is told by its report (`tick_frame`).
-/

namespace EventLoop

namespace Simulation

/-! ## Submitting steps -/

/-- The tasks of steps that are submitted one after the other. -/
def numbered (first : Nat) (steps : List Step) : List Task :=
  steps.mapIdx fun index step => Task.ofStep (first + index) step

theorem numbered_cons (first : Nat) (step : Step) (steps : List Step) :
    numbered first (step :: steps) = Task.ofStep first step :: numbered (first + 1) steps := by
  unfold numbered
  rw [List.mapIdx_cons]
  congr 1
  refine congrArg (List.mapIdx · steps) (funext fun index => ?_)
  rw [show first + (index + 1) = first + 1 + index by omega]

theorem numbered_append (first : Nat) (earlier later : List Step) :
    numbered first (earlier ++ later) =
      numbered first earlier ++ numbered (first + earlier.length) later := by
  unfold numbered
  rw [List.mapIdx_append]
  refine congrArg (_ ++ List.mapIdx · later) (funext fun index => ?_)
  rw [show first + (index + earlier.length) = first + earlier.length + index by omega]

@[simp] theorem length_numbered (first : Nat) (steps : List Step) :
    (numbered first steps).length = steps.length :=
  List.length_mapIdx

theorem mem_numbered {first : Nat} {steps : List Step} {task : Task} :
    task ∈ numbered first steps ↔
      ∃ index, ∃ hindex : index < steps.length, Task.ofStep (first + index) steps[index] = task :=
  List.mem_mapIdx

/-- The steps that are submitted are taken from the program one after the
other, and numbered by the engine. -/
theorem submitUntilSync_spec (steps : List Step) :
    ∀ engine : Engine, ∃ done,
      steps = done ++ (submitUntilSync engine steps).1 ∧
      (submissionsUntilSync engine steps).map (·.task) = numbered engine.nextId done ∧
      (submitUntilSync engine steps).2.nextId = engine.nextId + done.length := by
  induction steps with
  | nil => exact fun engine => ⟨[], rfl, rfl, rfl⟩
  | cons step rest ih =>
      intro engine
      have hnext := engine.submit_nextId step
      by_cases hqueue : (engine.submit step).1.queue = .callStack
      · refine ⟨[step], ?_, ?_, ?_⟩
        · simp only [submitUntilSync, if_pos hqueue, List.singleton_append]
        · simp only [submissionsUntilSync, if_pos hqueue]
          rfl
        · simp only [submitUntilSync, if_pos hqueue]
          exact hnext
      · obtain ⟨done, hsteps, htasks, hid⟩ := ih (engine.submit step).2
        refine ⟨step :: done, ?_, ?_, ?_⟩
        · simp only [submitUntilSync, if_neg hqueue, List.cons_append]
          rw [← hsteps]
        · simp only [submissionsUntilSync, if_neg hqueue, List.map_cons]
          rw [htasks, hnext, numbered_cons]
          rfl
        · simp only [submitUntilSync, if_neg hqueue, List.length_cons]
          rw [hid, hnext]
          omega

theorem now_submitUntilSync (steps : List Step) :
    ∀ engine : Engine, (submitUntilSync engine steps).2.now = engine.now := by
  induction steps with
  | nil => exact fun engine => rfl
  | cons step rest ih =>
      intro engine
      have hnow := engine.submit_now step
      by_cases hqueue : (engine.submit step).1.queue = .callStack
      · simp only [submitUntilSync, if_pos hqueue]
        exact hnow
      · simp only [submitUntilSync, if_neg hqueue]
        exact (ih _).trans hnow

/-- Steps are left over only if there is a task on the call stack. -/
theorem callStack_submitUntilSync (steps : List Step) :
    ∀ engine : Engine, (submitUntilSync engine steps).1 ≠ [] →
      (submitUntilSync engine steps).2.queues.callStack ≠ [] := by
  induction steps with
  | nil => exact fun engine hleft => absurd rfl hleft
  | cons step rest ih =>
      intro engine
      by_cases hqueue : (engine.submit step).1.queue = .callStack
      · intro _
        have hplace := Engine.tasksAt_submit engine step (.queued .callStack)
        rw [if_pos (by rw [← hqueue]; rfl)] at hplace
        simp only [submitUntilSync, if_pos hqueue]
        intro hempty
        exact List.concat_ne_nil _ _ (hplace.symm.trans hempty)
      · simp only [submitUntilSync, if_neg hqueue]
        exact ih (engine.submit step).2

/-- After a refill steps are left over only if there is a task on the call
stack. -/
theorem upcoming_refill (simulation : Simulation)
    (h : simulation.refill.engine.queues.callStack = []) : simulation.refill.upcoming = [] := by
  unfold refill at h ⊢
  by_cases hempty : simulation.engine.queues.callStack.isEmpty
  · rw [if_pos hempty] at h ⊢
    by_contra hleft
    exact callStack_submitUntilSync simulation.upcoming simulation.engine hleft h
  · rw [if_neg hempty] at h
    exact absurd (List.isEmpty_iff.2 h) hempty

/-! ## The phases of a tick -/

theorem now_startNext (simulation : Simulation) :
    simulation.startNext.2.engine.now = simulation.engine.now := by
  unfold startNext
  split
  · rfl
  · rename_i task _
    have hclock := congrArg Clock.now (simulation.engine.clock_start task.id)
    split
    · rename_i hstart
      rw [hstart] at hclock
      exact hclock
    · rename_i hstart
      rw [hstart] at hclock
      exact hclock

/-- A simulation within a tick, when it is about to start a task. -/
def beforeStart (simulation : Simulation) : Simulation :=
  ({ simulation.finishRunning.2 with ticks := simulation.ticks + 1 } : Simulation).refill.moveTime.2

/-- Counting a tick changes nothing of what it does. -/
theorem finishRunning_count (simulation : Simulation) (ticks : Nat) :
    finishRunning { simulation with ticks } =
      (simulation.finishRunning.1, { simulation.finishRunning.2 with ticks }) := by
  obtain ⟨_, _, _, running, _, _, _, _⟩ := simulation
  cases running <;> rfl

theorem tick_eq (simulation : Simulation) :
    simulation.tick =
      ({ tick := simulation.beforeStart.startNext.2.ticks
         nowMs := simulation.beforeStart.startNext.2.engine.now
         finished := simulation.running
         released := ({ simulation.finishRunning.2 with
           ticks := simulation.ticks + 1 } : Simulation).refill.moveTime.1
         started := simulation.beforeStart.startNext.1
         console := simulation.finishRunning.1 }, simulation.beforeStart.startNext.2) := by
  unfold tick
  rw [finishRunning_count]
  rfl

theorem tick_snd (simulation : Simulation) :
    simulation.tick.2 = simulation.beforeStart.startNext.2 := by
  rw [tick_eq]

/-! ### What the phases leave alone -/

theorem finishRunning_frame (simulation : Simulation) :
    ∃ engine, simulation.finishRunning.2 =
      { simulation with
        engine
        running := none
        console := simulation.console ++ simulation.finishRunning.1.toList } := by
  obtain ⟨engine, _, _, running, _, _, _, _⟩ := simulation
  cases running with
  | none => exact ⟨engine, by simp [finishRunning]⟩
  | some id => exact ⟨_, rfl⟩

/-- A tick submits nothing when no step is left. -/
theorem tickSubmissions_eq_nil (simulation : Simulation) (h : simulation.upcoming = []) :
    simulation.tickSubmissions = [] := by
  obtain ⟨engine, hfinish⟩ := simulation.finishRunning_frame
  unfold tickSubmissions refillSubmissions
  rw [hfinish]
  dsimp only
  rw [h]
  split <;> rfl

theorem refill_frame (simulation : Simulation) :
    ∃ engine upcoming, simulation.refill = { simulation with engine, upcoming } := by
  unfold refill
  split
  · exact ⟨_, _, rfl⟩
  · exact ⟨simulation.engine, simulation.upcoming, rfl⟩

theorem moveTime_frame (simulation : Simulation) :
    ∃ engine, simulation.moveTime.2 = { simulation with engine } := by
  unfold moveTime jump
  dsimp only
  split <;> exact ⟨_, rfl⟩

/-- When nothing is ready to run, time jumps to the next timer, if jumping is
asked for. -/
theorem moveTime_jump (simulation : Simulation) {due : Nat}
    (hforward : simulation.settings.fastForward = true)
    (hnext : (simulation.engine.advanceClock simulation.virtualStepMs).2.next? = none)
    (hdue : (simulation.engine.advanceClock simulation.virtualStepMs).2.timers.nextDue? =
      some due) :
    simulation.moveTime.2 =
      { simulation with
        engine := ((simulation.engine.advanceClock
          simulation.virtualStepMs).2.advanceClockTo due).2 } := by
  simp only [moveTime, jump, hforward, hnext, hdue]

/-- Otherwise time moves on by the length of a tick. -/
theorem moveTime_stay (simulation : Simulation)
    (h : simulation.settings.fastForward = false ∨
      (simulation.engine.advanceClock simulation.virtualStepMs).2.next? ≠ none ∨
      (simulation.engine.advanceClock simulation.virtualStepMs).2.timers.nextDue? = none) :
    simulation.moveTime.2 =
      { simulation with
        engine := (simulation.engine.advanceClock simulation.virtualStepMs).2 } := by
  unfold moveTime jump
  dsimp only
  split
  · rename_i hforward hnext hdue
    rcases h with h | h | h
    · exact absurd (hforward.symm.trans h) (by decide)
    · exact absurd hnext h
    · exact absurd (hdue.symm.trans h) (by simp)
  · rfl

theorem startNext_of_none (simulation : Simulation) (h : simulation.engine.next? = none) :
    simulation.startNext = (none, simulation) := by
  unfold startNext
  rw [h]

theorem startNext_frame (simulation : Simulation) (hrunning : simulation.running = none) :
    ∃ engine, simulation.startNext.2 =
      { simulation with
        engine
        running := simulation.startNext.1.map (·.id)
        executed := simulation.executed ++ simulation.startNext.1.toList } := by
  obtain ⟨engine, _, _, running, _, _, _, _⟩ := simulation
  obtain rfl : running = none := hrunning
  unfold startNext
  split
  · exact ⟨engine, by simp⟩
  · split
    · exact ⟨_, rfl⟩
    · rename_i engine _
      exact ⟨engine, by simp⟩

theorem beforeStart_frame (simulation : Simulation) :
    ∃ engine upcoming, simulation.beforeStart =
      { simulation with
        engine, upcoming
        running := none
        ticks := simulation.ticks + 1
        console := simulation.console ++ simulation.finishRunning.1.toList } := by
  obtain ⟨finished, hfinish⟩ := simulation.finishRunning_frame
  unfold beforeStart
  rw [hfinish]
  obtain ⟨refilled, upcoming, hrefill⟩ := refill_frame
    { simulation with
      engine := finished
      running := none
      ticks := simulation.ticks + 1
      console := simulation.console ++ simulation.finishRunning.1.toList }
  rw [hrefill]
  obtain ⟨moved, hmove⟩ := moveTime_frame
    { simulation with
      engine := refilled, upcoming
      running := none
      ticks := simulation.ticks + 1
      console := simulation.console ++ simulation.finishRunning.1.toList }
  exact ⟨moved, upcoming, hmove⟩

/-- Apart from the engine and the steps that are still to be submitted, all
that a tick changes is told by its report. -/
theorem tick_frame (simulation : Simulation) :
    ∃ engine upcoming, simulation.tick.2 =
      { simulation with
        engine, upcoming
        running := simulation.tick.1.started.map (·.id)
        ticks := simulation.ticks + 1
        executed := simulation.executed ++ simulation.tick.1.started.toList
        console := simulation.console ++ simulation.tick.1.console.toList } := by
  obtain ⟨_, upcoming, hbefore⟩ := simulation.beforeStart_frame
  obtain ⟨engine, hstart⟩ := simulation.beforeStart.startNext_frame (by rw [hbefore])
  refine ⟨engine, upcoming, ?_⟩
  rw [tick_eq]
  dsimp only
  rw [hstart, hbefore]

theorem executed_tick (simulation : Simulation) :
    simulation.tick.2.executed = simulation.executed ++ simulation.tick.1.started.toList := by
  obtain ⟨_, _, hframe⟩ := simulation.tick_frame
  rw [hframe]

theorem running_tick (simulation : Simulation) :
    simulation.tick.2.running = simulation.tick.1.started.map (·.id) := by
  obtain ⟨_, _, hframe⟩ := simulation.tick_frame
  rw [hframe]

theorem extraction_tick (simulation : Simulation) :
    simulation.tick.2.extraction = simulation.extraction := by
  obtain ⟨_, _, hframe⟩ := simulation.tick_frame
  rw [hframe]

theorem settings_tick (simulation : Simulation) :
    simulation.tick.2.settings = simulation.settings := by
  obtain ⟨_, _, hframe⟩ := simulation.tick_frame
  rw [hframe]

theorem ticks_tick (simulation : Simulation) :
    simulation.tick.2.ticks = simulation.ticks + 1 := by
  obtain ⟨_, _, hframe⟩ := simulation.tick_frame
  rw [hframe]

/-- A change of speed changes settings only, and not the limit. -/
theorem setSpeed_frame (simulation : Simulation) (speed : Float) :
    ∃ settings : TickerConfig, settings.maxTicks = simulation.settings.maxTicks ∧
      simulation.setSpeed speed = { simulation with settings } := by
  unfold setSpeed
  split
  · exact ⟨{ simulation.settings with speed }, rfl, rfl⟩
  · exact ⟨simulation.settings, rfl, rfl⟩

/-- The report of a tick has the number of the tick and the task that was
running. -/
theorem tick_report (simulation : Simulation) :
    simulation.tick.1.tick = simulation.ticks + 1 ∧
      simulation.tick.1.finished = simulation.running := by
  have hticks : simulation.tick.1.tick = simulation.tick.2.ticks := by rw [tick_eq]
  exact ⟨hticks.trans simulation.ticks_tick, by rw [tick_eq]⟩

end Simulation

end EventLoop
