import EventLoop.Proofs.Engine.Reset
import EventLoop.Proofs.Simulation.Console

/-!
# A restart is a replay

A simulation calls its engine and sees nothing else of it, so its engine is
always one that a run of operations reaches (`Engine.Reaches`); and two
simulations whose engines differ by a constant number in the ids of their
tasks, and in nothing else, stay so (`Simulation.Renumbered`).

A restart resets the engine and takes back everything else but the speed.  From
then on the simulation is one that was just loaded with this speed, up to the
ids handed out before, and so are all its reports (`replies_restart`).  That no
refusal is ever on record makes the traces agree word for word: a refusal is
the only event that prints an id.
-/

namespace EventLoop

/-! ## Calls on the engine -/

/-- Operations lead from one engine to another. -/
def Engine.Reaches (engine next : Engine) : Prop :=
  ∃ operations : List Engine.Operation, (engine.performAll operations).2 = next

namespace Engine.Reaches

variable {engine next last : Engine}

theorem refl (engine : Engine) : engine.Reaches engine := ⟨[], rfl⟩

theorem trans (h : engine.Reaches next) (hlast : next.Reaches last) : engine.Reaches last := by
  obtain ⟨operations, rfl⟩ := h
  obtain ⟨others, rfl⟩ := hlast
  refine ⟨operations ++ others, ?_⟩
  induction operations generalizing engine with
  | nil => rfl
  | cons operation rest ih => exact ih

theorem perform (engine : Engine) (operation : Engine.Operation) :
    engine.Reaches (engine.perform operation).2 :=
  ⟨[operation], rfl⟩

end Engine.Reaches

namespace Simulation

open Engine.Operation

theorem reaches_submitUntilSync (steps : List Step) :
    ∀ engine : Engine, engine.Reaches (submitUntilSync engine steps).2 := by
  induction steps with
  | nil => exact .refl
  | cons step rest ih =>
      intro engine
      have hsubmit : engine.Reaches (engine.submit step).2 := .perform engine (submit step)
      by_cases hqueue : (engine.submit step).1.queue = .callStack
      · simpa only [submitUntilSync, if_pos hqueue] using hsubmit
      · simpa only [submitUntilSync, if_neg hqueue] using hsubmit.trans (ih _)

variable (simulation : Simulation)

theorem reaches_finishRunning :
    simulation.engine.Reaches simulation.finishRunning.2.engine := by
  unfold finishRunning
  cases simulation.running with
  | none => exact .refl _
  | some id =>
      dsimp only
      unfold finish
      split
      · exact .perform simulation.engine (fail id _)
      · exact .perform simulation.engine (complete id)

theorem reaches_refill : simulation.engine.Reaches simulation.refill.engine := by
  unfold refill
  split
  · exact reaches_submitUntilSync _ _
  · exact .refl _

theorem reaches_moveTime : simulation.engine.Reaches simulation.moveTime.2.engine := by
  have hadvance : simulation.engine.Reaches
      (simulation.engine.advanceClock simulation.virtualStepMs).2 :=
    .perform simulation.engine (advanceClock simulation.virtualStepMs)
  refine hadvance.trans ?_
  unfold moveTime jump
  dsimp only
  split
  · exact .perform _ (advanceClockTo _)
  · exact .refl _

theorem reaches_startNext : simulation.engine.Reaches simulation.startNext.2.engine := by
  unfold startNext
  split
  · exact .refl _
  · rename_i task _
    have hstart := Engine.Reaches.perform simulation.engine (start task.id)
    rw [Engine.perform] at hstart
    split <;> rename_i hcall <;> rwa [hcall] at hstart

theorem reaches_tick : simulation.engine.Reaches simulation.tick.2.engine := by
  have hrefill := reaches_refill
    { simulation.finishRunning.2 with ticks := simulation.ticks + 1 }
  rw [tick_snd]
  exact simulation.reaches_finishRunning.trans
    (hrefill.trans ((reaches_moveTime _).trans (reaches_startNext _)))

/-- The engine of a simulation is one that operations reach, the settings are
those that it was loaded with but for the speed, and so is the script. -/
structure Reached (source : String) (config : Config) (simulation : Simulation) : Prop where
  engine : (Engine.withTraceCapacity config.engine.traceCapacity).Reaches simulation.engine
  extraction : simulation.extraction = extractSource source
  settings : simulation.settings = { config.ticker with speed := simulation.settings.speed }

theorem reached_performAll (source : String) (config : Config) (commands : List Command) :
    Reached source config ((load source config).performAll commands) := by
  have hreached : Reached source config
      ((Chronicle.load source config).performAll commands).simulation := by
    refine Chronicle.performAll_induction
      (motive := fun chronicle => Reached source config chronicle.simulation)
      ⟨.refl _, rfl, rfl⟩ ?_ ?_ ?_ commands
    · intro chronicle h
      refine ⟨h.engine.trans (reaches_tick _), (extraction_tick _).trans h.extraction, ?_⟩
      dsimp only [Chronicle.tick]
      rw [settings_tick]
      exact h.settings
    · intro chronicle speed h
      unfold setSpeed
      split
      · refine ⟨h.engine, h.extraction, ?_⟩
        dsimp only
        rw [h.settings]
      · exact h
    · intro chronicle h
      exact ⟨h.engine.trans (.perform _ reset), h.extraction, h.settings⟩
  rwa [Chronicle.simulation_performAll] at hreached

/-- No refusal is ever on record. -/
theorem quiet_performAll (source : String) (config : Config) (commands : List Command) :
    ((load source config).performAll commands).engine.Quiet := by
  obtain ⟨ledger, h⟩ := Chronicle.exists_ledger_performAll source config commands
  have hquiet := h.accounts.quiet
  rwa [Chronicle.simulation_performAll] at hquiet

end Simulation

/-! ## Reports about renumbered tasks -/

/-- The same event of the task with a larger id. -/
def TraceEvent.renumber (offset : Nat) (event : TraceEvent) : TraceEvent :=
  { event with taskId := event.taskId.map (· + offset) }

/-- The same start of the task with a larger id. -/
def ExecutedTask.renumber (offset : Nat) (executed : ExecutedTask) : ExecutedTask :=
  { executed with id := executed.id + offset }

/-- The same report about tasks with larger ids. -/
def TickReport.renumber (offset : Nat) (report : TickReport) : TickReport :=
  { report with
    finished := report.finished.map (· + offset)
    released := report.released.map (· + offset)
    started := report.started.map (ExecutedTask.renumber offset) }

/-- The same report about tasks with larger ids. -/
def RunReport.renumber (offset : Nat) (report : RunReport) : RunReport :=
  { report with
    executed := report.executed.map (ExecutedTask.renumber offset)
    trace := report.trace.map (TraceEvent.renumber offset) }

/-- Without refusals renumbered events are equal but for the ids that stand
beside the messages. -/
theorem TraceEvent.eq_renumber {offset : Nat} {events laterEvents : List TraceEvent}
    (h : List.Forall₂ (TraceEvent.Renumbered offset) events laterEvents)
    (hquiet : ∀ event ∈ events, event.kind ≠ .warning) :
    laterEvents = events.map (TraceEvent.renumber offset) := by
  induction h with
  | nil => rfl
  | @cons event laterEvent rest laterRest hevent _ ih =>
      have hkind : event.kind ≠ .warning := hquiet event List.mem_cons_self
      have hrest := ih fun other hother => hquiet other (List.mem_cons_of_mem _ hother)
      have hsame : laterEvent = event.renumber offset := by
        obtain ⟨_, _, _, _, _⟩ := laterEvent
        obtain ⟨hseq, hatMs, htaskId, hsort, hmessage, -⟩ := hevent
        dsimp only at hseq hatMs htaskId hsort hmessage
        rw [TraceEvent.renumber, hseq, hatMs, htaskId, hsort, hmessage hkind]
      rw [List.map_cons, hsame, hrest]

namespace Simulation

theorem executedTask_renumber (offset : Nat) (task : Task) (startedAtMs : Nat) :
    executedTask (task.renumber offset) startedAtMs =
      (executedTask task startedAtMs).renumber offset := rfl

/-! ## Renumbered simulations -/

/-- Two simulations that differ by a constant number in the ids of their tasks,
and in nothing else. -/
structure Renumbered (offset : Nat) (fresh later : Simulation) : Prop where
  engine : fresh.engine.Renumbered offset later.engine
  extraction : later.extraction = fresh.extraction
  settings : later.settings = fresh.settings
  running : later.running = fresh.running.map (· + offset)
  upcoming : later.upcoming = fresh.upcoming
  ticks : later.ticks = fresh.ticks
  executed : later.executed = fresh.executed.map (ExecutedTask.renumber offset)
  console : later.console = fresh.console

namespace Renumbered

variable {offset : Nat} {fresh later : Simulation}

theorem finish {engine laterEngine : Engine} (h : engine.Renumbered offset laterEngine)
    (id : Nat) :
    (Simulation.finish laterEngine (id + offset)).1 = (Simulation.finish engine id).1 ∧
      (Simulation.finish engine id).2.Renumbered offset
        (Simulation.finish laterEngine (id + offset)).2 := by
  have herror : (laterEngine.task? (id + offset)).filter (·.kind = .error) =
      ((engine.task? id).filter (·.kind = .error)).map (Task.renumber offset) := by
    rw [h.task?_eq, Option.filter_map]
    rfl
  unfold Simulation.finish
  rw [herror]
  cases (engine.task? id).filter (·.kind = .error) with
  | some task => exact ⟨rfl, (h.fail id _).2⟩
  | none =>
      obtain ⟨hresult, hnext⟩ := h.complete id
      refine ⟨?_, hnext⟩
      dsimp only [Option.map_none]
      rw [hresult]
      cases (engine.complete id).1 <;> rfl

theorem finishRunning (h : fresh.Renumbered offset later) :
    later.finishRunning.1 = fresh.finishRunning.1 ∧
      fresh.finishRunning.2.Renumbered offset later.finishRunning.2 := by
  unfold Simulation.finishRunning
  rw [h.running]
  cases fresh.running with
  | none => exact ⟨rfl, h⟩
  | some id =>
      obtain ⟨hline, hnext⟩ := finish h.engine id
      refine ⟨hline, hnext, h.extraction, h.settings, rfl, h.upcoming, h.ticks, h.executed, ?_⟩
      dsimp only [Option.map_some]
      rw [h.console, hline]

theorem submitUntilSync (steps : List Step) :
    ∀ {engine laterEngine : Engine}, engine.Renumbered offset laterEngine →
      (Simulation.submitUntilSync laterEngine steps).1 =
          (Simulation.submitUntilSync engine steps).1 ∧
        (Simulation.submitUntilSync engine steps).2.Renumbered offset
          (Simulation.submitUntilSync laterEngine steps).2 := by
  induction steps with
  | nil => exact fun h => ⟨rfl, h⟩
  | cons step rest ih =>
      intro engine laterEngine h
      obtain ⟨htask, hnext⟩ := h.submit step
      have hqueue : (laterEngine.submit step).1.queue = (engine.submit step).1.queue := by
        rw [htask]
        rfl
      unfold Simulation.submitUntilSync
      dsimp only
      rw [hqueue]
      by_cases hsync : (engine.submit step).1.queue = .callStack
      · rw [if_pos hsync, if_pos hsync]
        exact ⟨rfl, hnext⟩
      · rw [if_neg hsync, if_neg hsync]
        exact ih hnext

theorem refill (h : fresh.Renumbered offset later) :
    fresh.refill.Renumbered offset later.refill := by
  have hempty : later.engine.queues.callStack.isEmpty =
      fresh.engine.queues.callStack.isEmpty := by
    rw [h.engine.queues]
    exact List.isEmpty_map
  unfold Simulation.refill
  rw [hempty]
  split
  · obtain ⟨hleft, hnext⟩ := submitUntilSync fresh.upcoming h.engine
    rw [← h.upcoming] at hleft hnext
    rw [h.upcoming] at hleft hnext ⊢
    exact ⟨hnext, h.extraction, h.settings, h.running, hleft, h.ticks, h.executed, h.console⟩
  · exact h

theorem jump (h : fresh.Renumbered offset later) :
    later.jump.1 = fresh.jump.1.map (· + offset) ∧
      fresh.jump.2.Renumbered offset later.jump.2 := by
  unfold Simulation.jump
  rw [h.settings, h.engine.next?_eq, h.engine.nextDue?_eq]
  cases fresh.settings.fastForward with
  | false => exact ⟨rfl, h⟩
  | true =>
      cases fresh.engine.next? with
      | some task => exact ⟨rfl, h⟩
      | none =>
          cases fresh.engine.timers.nextDue? with
          | none => exact ⟨rfl, h⟩
          | some due =>
              obtain ⟨hids, hnext⟩ := h.engine.advanceClockTo due
              exact ⟨hids, hnext, h.extraction, rfl, h.running, h.upcoming, h.ticks, h.executed,
                h.console⟩

theorem moveTime (h : fresh.Renumbered offset later) :
    later.moveTime.1 = fresh.moveTime.1.map (· + offset) ∧
      fresh.moveTime.2.Renumbered offset later.moveTime.2 := by
  obtain ⟨hids, hnext⟩ := h.engine.advanceClock fresh.virtualStepMs
  have hstep : later.virtualStepMs = fresh.virtualStepMs :=
    congrArg TickerConfig.virtualStepMs h.settings
  rw [Simulation.moveTime, Simulation.moveTime, hstep]
  have hadvanced : ({ fresh with engine := (fresh.engine.advanceClock fresh.virtualStepMs).2 } :
      Simulation).Renumbered offset
      { later with engine := (later.engine.advanceClock fresh.virtualStepMs).2 } :=
    ⟨hnext, h.extraction, h.settings, h.running, h.upcoming, h.ticks, h.executed, h.console⟩
  obtain ⟨hjumped, hlast⟩ := hadvanced.jump
  refine ⟨?_, hlast⟩
  dsimp only
  rw [hids, hjumped, List.map_append]

theorem startNext (h : fresh.Renumbered offset later) :
    later.startNext.1 = fresh.startNext.1.map (ExecutedTask.renumber offset) ∧
      fresh.startNext.2.Renumbered offset later.startNext.2 := by
  unfold Simulation.startNext
  rw [h.engine.next?_eq]
  cases fresh.engine.next? with
  | none => exact ⟨rfl, h⟩
  | some task =>
      obtain ⟨hresult, hnext⟩ := h.engine.start task.id
      dsimp only [Option.map_some, Task.renumber_id]
      generalize fresh.engine.start task.id = call at hresult hnext
      generalize later.engine.start (task.id + offset) = laterCall at hresult hnext
      obtain ⟨result, engine⟩ := call
      obtain ⟨laterResult, laterEngine⟩ := laterCall
      dsimp only at hresult hnext
      subst hresult
      cases result with
      | error error =>
          exact ⟨rfl, hnext, h.extraction, h.settings, h.running, h.upcoming, h.ticks, h.executed,
            h.console⟩
      | ok started =>
          dsimp only [Engine.renumberResult]
          rw [executedTask_renumber, hnext.now_eq]
          refine ⟨rfl, hnext, h.extraction, h.settings, rfl, h.upcoming, h.ticks, ?_, h.console⟩
          dsimp only
          rw [h.executed, List.map_append]
          rfl

/-- A tick of both simulations is reported alike and keeps the difference
between them. -/
theorem tick (h : fresh.Renumbered offset later) :
    later.tick.1 = fresh.tick.1.renumber offset ∧
      fresh.tick.2.Renumbered offset later.tick.2 := by
  obtain ⟨hline, hfinished⟩ := h.finishRunning
  have hcounted : ({ fresh.finishRunning.2 with ticks := fresh.ticks + 1 } :
      Simulation).Renumbered offset { later.finishRunning.2 with ticks := later.ticks + 1 } :=
    ⟨hfinished.engine, hfinished.extraction, hfinished.settings, hfinished.running,
      hfinished.upcoming, congrArg (· + 1) h.ticks, hfinished.executed, hfinished.console⟩
  obtain ⟨hreleased, hmoved⟩ := hcounted.refill.moveTime
  obtain ⟨hstarted, hlast⟩ := hmoved.startNext
  rw [tick_eq, tick_eq]
  refine ⟨?_, hlast⟩
  dsimp only [beforeStart, TickReport.renumber]
  rw [hlast.ticks, hlast.engine.now_eq, h.running, hreleased, hstarted, hline]

theorem isDone_eq (h : fresh.Renumbered offset later) : later.isDone = fresh.isDone := by
  unfold isDone
  rw [h.running, h.upcoming, h.engine.isIdle_eq, Option.isNone_map]

theorem runFor (ticks : Nat) :
    ∀ {fresh later : Simulation}, fresh.Renumbered offset later →
      (Simulation.runFor ticks fresh).Renumbered offset (Simulation.runFor ticks later) := by
  induction ticks with
  | zero => exact fun h => h
  | succ ticks ih =>
      intro fresh later h
      rw [Simulation.runFor, Simulation.runFor, h.isDone_eq]
      split
      · exact h
      · exact ih h.tick.2

theorem run (h : fresh.Renumbered offset later) : fresh.run.Renumbered offset later.run := by
  unfold Simulation.run
  rw [h.settings, h.ticks]
  exact runFor _ h

theorem setSpeed (h : fresh.Renumbered offset later) (speed : Float) :
    (fresh.setSpeed speed).Renumbered offset (later.setSpeed speed) := by
  unfold Simulation.setSpeed
  split
  · refine ⟨h.engine, h.extraction, ?_, h.running, h.upcoming, h.ticks, h.executed, h.console⟩
    dsimp only
    rw [h.settings]
  · exact h

theorem restart (h : fresh.Renumbered offset later) :
    fresh.restart.Renumbered offset later.restart :=
  ⟨h.engine.reset, h.extraction, h.settings, rfl, congrArg Extraction.steps h.extraction, rfl, rfl,
    rfl⟩

/-- Every command keeps the difference between the simulations. -/
theorem perform (h : fresh.Renumbered offset later) (command : Command) :
    (fresh.perform command).Renumbered offset (later.perform command) := by
  cases command with
  | tick => exact h.tick.2
  | setSpeed speed => exact h.setSpeed speed
  | run => exact h.run
  | restart => exact h.restart

theorem report_eq (h : fresh.Renumbered offset later) (hquiet : fresh.engine.Quiet) :
    later.report = fresh.report.renumber offset := by
  have hevents := TraceEvent.eq_renumber h.engine.trace.events hquiet
  unfold report
  rw [h.ticks, h.isDone_eq, h.engine.now_eq, h.executed, h.console, hevents]
  rfl

end Renumbered

/-! ## Replies -/

/-- What a command gives back. -/
inductive Reply where
  | ticked (report : TickReport)
  | ran (report : RunReport)
  | silent
  deriving DecidableEq

/-- The same reply about tasks with larger ids. -/
def Reply.renumber (offset : Nat) : Reply → Reply
  | .ticked report => .ticked (report.renumber offset)
  | .ran report => .ran (report.renumber offset)
  | .silent => .silent

/-- What a simulation replies to a command. -/
def reply (simulation : Simulation) : Command → Reply
  | .tick => .ticked simulation.tick.1
  | .run => .ran simulation.run.report
  | .setSpeed _ | .restart => .silent

/-- What a simulation replies to commands, in order. -/
def replies (simulation : Simulation) : List Command → List Reply
  | [] => []
  | command :: rest => simulation.reply command :: (simulation.perform command).replies rest

/-- A simulation that is renumbered against a loaded one replies like it. -/
theorem Renumbered.replies_eq {offset : Nat} {source : String} {config : Config}
    (commands : List Command) :
    ∀ (earlier : List Command) {later : Simulation},
      ((load source config).performAll earlier).Renumbered offset later →
        later.replies commands =
          (((load source config).performAll earlier).replies commands).map
            (Reply.renumber offset) := by
  induction commands with
  | nil => exact fun _ _ _ => rfl
  | cons command rest ih =>
      intro earlier later h
      have hperform : ((load source config).performAll earlier).perform command =
          (load source config).performAll (earlier ++ [command]) := by
        rw [performAll, performAll, List.foldl_append]
        rfl
      have hreply : later.reply command =
          (((load source config).performAll earlier).reply command).renumber offset := by
        cases command with
        | tick => exact congrArg Reply.ticked h.tick.1
        | run =>
            have hquiet := quiet_performAll source config (earlier ++ [.run])
            rw [← hperform] at hquiet
            exact congrArg Reply.ran (h.run.report_eq hquiet)
        | setSpeed speed => rfl
        | restart => rfl
      have hnext := h.perform command
      rw [hperform] at hnext
      rw [replies, replies, List.map_cons, hreply, hperform, ih _ hnext]

/-- A simulation that is restarted is one that was just loaded with its speed,
up to the ids handed out before. -/
theorem renumbered_restart {source : String} {config : Config} {simulation : Simulation}
    (h : simulation.Reached source config) :
    (load source { config with
        ticker := { config.ticker with speed := simulation.settings.speed } }).Renumbered
      (simulation.engine.nextId - 1) simulation.restart := by
  obtain ⟨operations, hengine⟩ := h.engine
  have hreset := Engine.renumbered_reset config.engine.traceCapacity operations
  rw [hengine] at hreset
  exact ⟨hreset, h.extraction, h.settings, rfl, congrArg Extraction.steps h.extraction, rfl, rfl,
    rfl⟩

/-- **A restart is a replay.**  Whatever was done to a simulation, once it is
restarted it replies to all commands like one that was just loaded with its
speed, up to the number of ids handed out before.  Ids are handed out from 1
on, so this number is one less than the next id. -/
theorem replies_restart (source : String) (config : Config) (earlier later : List Command) :
    let simulation := (load source config).performAll earlier
    let issued := simulation.engine.nextId - 1
    let fresh := load source { config with
      ticker := { config.ticker with speed := simulation.settings.speed } }
    simulation.restart.replies later = (fresh.replies later).map (Reply.renumber issued) :=
  Renumbered.replies_eq later [] (renumbered_restart (reached_performAll source config earlier))

end Simulation

end EventLoop
