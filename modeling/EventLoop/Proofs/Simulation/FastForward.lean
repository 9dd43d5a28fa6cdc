import EventLoop.Proofs.Simulation.Countdown

/-!
# Fast-forwarding

The same script is run twice, with and without fast-forwarding.  The runs are
equal, apart from the setting, up to the first tick of the second one that
jumps.  Then no task is ready, so the call stack is empty, so every step has
been submitted; all that is left are tasks that wait for timers.  Simulations
in this state are `Drained`: the ledger has one line of submissions, and all
that ticks do from then on is to move along that line, in whatever portions the
timers are released.  As both runs leave the tick with the same line, they
execute the same tasks and print the same lines.

That the run with fast-forwarding comes to the end, and not later than the
other one, is a matter of counting (`ticksLeft`).
-/

namespace EventLoop

/-- The start of a task without its time. -/
def ExecutedTask.untimed (executed : ExecutedTask) : ExecutedTask :=
  { executed with startedAtMs := 0 }

/-- Switches fast-forwarding on or off. -/
def Config.setFastForward (config : Config) (fastForward : Bool) : Config :=
  { config with ticker := { config.ticker with fastForward } }

namespace Simulation

/-- Switches fast-forwarding on or off. -/
def setFastForward (simulation : Simulation) (fastForward : Bool) : Simulation :=
  { simulation with settings := { simulation.settings with fastForward } }

/-! ## Ticks up to the first jump -/

variable (simulation : Simulation)

theorem finishRunning_setFastForward (fastForward : Bool) :
    (simulation.setFastForward fastForward).finishRunning.2 =
      simulation.finishRunning.2.setFastForward fastForward := by
  obtain ⟨_, _, _, running, _, _, _, _⟩ := simulation
  cases running <;> rfl

theorem refill_setFastForward (fastForward : Bool) :
    (simulation.setFastForward fastForward).refill =
      simulation.refill.setFastForward fastForward := by
  unfold refill setFastForward
  dsimp only
  split <;> rfl

theorem startNext_setFastForward (fastForward : Bool) :
    (simulation.setFastForward fastForward).startNext.2 =
      simulation.startNext.2.setFastForward fastForward := by
  unfold startNext setFastForward
  dsimp only
  split
  · rfl
  · split <;> rfl

/-- Switching fast-forwarding on makes a difference to a tick only if nothing
is ready and a timer is running. -/
theorem moveTime_setFastForward (hslow : simulation.settings.fastForward = false) :
    (simulation.setFastForward true).moveTime.2 = simulation.moveTime.2.setFastForward true ∨
      simulation.moveTime.2.engine.next? = none ∧
        ∃ due, (simulation.setFastForward true).moveTime.2 =
          ({ simulation.moveTime.2 with
            engine := (simulation.moveTime.2.engine.advanceClockTo due).2 } :
              Simulation).setFastForward true := by
  have hstay := simulation.moveTime_stay (.inl hslow)
  rw [hstay]
  dsimp only
  cases hnext : (simulation.engine.advanceClock simulation.virtualStepMs).2.next? with
  | some task =>
      left
      exact moveTime_stay (simulation.setFastForward true)
        (.inr (.inl (hnext.symm ▸ Option.some_ne_none task)))
  | none =>
      cases hdue :
          (simulation.engine.advanceClock simulation.virtualStepMs).2.timers.nextDue? with
      | none =>
          left
          exact moveTime_stay (simulation.setFastForward true) (.inr (.inr hdue))
      | some due =>
          right
          exact ⟨rfl, due, moveTime_jump (simulation.setFastForward true) rfl hnext hdue⟩

theorem beforeStart_setFastForward (hslow : simulation.settings.fastForward = false) :
    (simulation.setFastForward true).beforeStart =
        simulation.beforeStart.setFastForward true ∨
      simulation.beforeStart.engine.next? = none ∧
        ∃ due, (simulation.setFastForward true).beforeStart =
          ({ simulation.beforeStart with
            engine := (simulation.beforeStart.engine.advanceClockTo due).2 } :
              Simulation).setFastForward true := by
  have hrefill := refill_setFastForward
    { simulation.finishRunning.2 with ticks := simulation.ticks + 1 } true
  have hfinish := simulation.finishRunning_setFastForward true
  have hforward : ({ simulation.finishRunning.2 with
      ticks := simulation.ticks + 1 } : Simulation).refill.settings.fastForward = false := by
    obtain ⟨_, hfinished⟩ := simulation.finishRunning_frame
    obtain ⟨_, _, hrefilled⟩ := refill_frame
      ({ simulation.finishRunning.2 with ticks := simulation.ticks + 1 } : Simulation)
    rw [hrefilled, hfinished]
    exact hslow
  unfold beforeStart
  rw [hfinish]
  have hmove := moveTime_setFastForward _ hforward
  rw [← hrefill] at hmove
  exact hmove

end Simulation

/-! ## Drained simulations -/

namespace Ledger

/-- The submissions in the order of their start, if no other ones come. -/
def line (ledger : Ledger) : List Submission :=
  ledger.started ++ (ledger.called ++ ledger.waiting)

/-- Every step has been submitted, and only tasks with timers are left. -/
structure Drains (ledger : Ledger) (simulation : Simulation) : Prop where
  balances : ∃ submissions first, ledger.Balances submissions first simulation
  upcoming_eq : simulation.upcoming = []
  deferred_eq : ledger.deferred = []
  stacked_eq : ledger.stacked = []

variable {ledger : Ledger} {submissions : List Submission} {simulation : Simulation}
  {first : Nat}

theorem line_finish : ledger.finish.line = ledger.line := by
  simp [line, finish, started]

theorem line_release (now : Nat) : (ledger.release now).line = ledger.line := by
  simp only [line, release, started, List.append_assoc, List.takeWhile_append_dropWhile]

namespace Drains

/-- A start takes the first of the called submissions, which is the next one in
the line. -/
protected theorem startNext (h : ledger.Drains simulation) (hcurrent : ledger.current = none) :
    ledger.start.Drains simulation.startNext.2 ∧ ledger.start.line = ledger.line := by
  obtain ⟨submissions, first, hbalances⟩ := h.balances
  have hstarted := hbalances.startNext hcurrent
  have hledger : ledger.start.deferred = [] ∧ ledger.start.stacked = [] ∧
      ledger.start.line = ledger.line := by
    unfold start
    rw [h.deferred_eq, h.stacked_eq]
    cases hcalled : ledger.called with
    | nil => exact ⟨h.deferred_eq, h.stacked_eq, rfl⟩
    | cons submission rest =>
        refine ⟨rfl, rfl, ?_⟩
        simp [line, started, hcurrent, hcalled]
  refine ⟨⟨⟨submissions, first, hstarted⟩, ?_, hledger.1, hledger.2.1⟩, hledger.2.2⟩
  have hrunning : simulation.running = none := by
    rw [hbalances.running_eq, hcurrent]
    rfl
  obtain ⟨engine, hframe⟩ := simulation.startNext_frame hrunning
  rw [hframe]
  exact h.upcoming_eq

/-- Ticks move along the line. -/
protected theorem tick (h : ledger.Drains simulation) :
    ∃ next : Ledger, next.Drains simulation.tick.2 ∧ next.line = ledger.line := by
  obtain ⟨submissions, first, hbalances⟩ := h.balances
  have hnone := simulation.tickSubmissions_eq_nil h.upcoming_eq
  have hbefore := hbalances.beforeStart
  rw [hnone, List.append_nil] at hbefore
  have hupcoming : simulation.beforeStart.upcoming = [] := by
    obtain ⟨_, _, hframe⟩ := simulation.beforeStart_frame
    have hextraction : simulation.beforeStart.extraction = simulation.extraction := by rw [hframe]
    rw [hbefore.upcoming_eq, hextraction, ← hbalances.upcoming_eq]
    exact h.upcoming_eq
  have hdrains : (ledger.beforeStart [] simulation.beforeStart.engine.now).Drains
      simulation.beforeStart :=
    ⟨⟨submissions, first, hbefore⟩, hupcoming, h.deferred_eq, h.stacked_eq⟩
  obtain ⟨hnext, hline⟩ := hdrains.startNext (ledger.current_beforeStart [] _)
  rw [← Simulation.tick_snd] at hnext
  refine ⟨_, hnext, ?_⟩
  calc (ledger.beforeStart [] simulation.beforeStart.engine.now).start.line
      = (ledger.finish.release simulation.beforeStart.engine.now).line := hline
    _ = ledger.finish.line := line_release _
    _ = ledger.line := line_finish

protected theorem runFor (h : ledger.Drains simulation) (ticks : Nat) :
    ∃ last : Ledger, last.Drains (Simulation.runFor ticks simulation) ∧
      last.line = ledger.line := by
  induction ticks generalizing ledger simulation with
  | zero => exact ⟨ledger, h, rfl⟩
  | succ ticks ih =>
      rw [Simulation.runFor]
      split
      · exact ⟨ledger, h, rfl⟩
      · obtain ⟨next, hnext, hline⟩ := h.tick
        obtain ⟨last, hlast, hrest⟩ := ih hnext
        exact ⟨last, hlast, hrest.trans hline⟩

/-- At the end of the line all of it has been executed and printed. -/
theorem executed_of_isDone (h : ledger.Drains simulation) (hdone : simulation.isDone = true) :
    simulation.executed.map ExecutedTask.untimed =
        ledger.line.map (fun submission => Simulation.executedTask submission.ready 0) ∧
      simulation.console =
        ledger.line.filterMap fun submission => Simulation.consoleLine? submission.task := by
  obtain ⟨submissions, first, hbalances⟩ := h.balances
  obtain ⟨-, hremaining⟩ := hbalances.isDone_iff_remaining.1 hdone
  obtain ⟨hcurrent, hrest⟩ := List.append_eq_nil_iff.1 hremaining
  have hline : ledger.line = ledger.started := by
    rw [line, (List.append_eq_nil_iff.1 hrest).2, List.append_nil]
  have hended : ledger.started = ledger.ended := by
    rw [started, hcurrent, List.append_nil]
  rw [hline]
  constructor
  · refine hbalances.executed_map fun submission executed hstarted => ?_
    rw [hstarted.executed_eq]
    rfl
  · rw [hended]
    exact hbalances.console_eq

end Drains

/-- The first tick that would jump leaves both simulations with the same
line. -/
theorem Balances.tick_setFastForward (h : ledger.Balances submissions first simulation)
    (hslow : simulation.settings.fastForward = false) :
    (simulation.setFastForward true).tick.2 = simulation.tick.2.setFastForward true ∨
      ∃ slow fast : Ledger, slow.Drains simulation.tick.2 ∧
        fast.Drains (simulation.setFastForward true).tick.2 ∧ slow.line = fast.line := by
  rcases simulation.beforeStart_setFastForward hslow with hsame | ⟨hnext, due, hjump⟩
  · left
    rw [Simulation.tick_snd, Simulation.tick_snd, hsame]
    exact simulation.beforeStart.startNext_setFastForward true
  · right
    have hbefore := h.beforeStart
    have hcurrent := ledger.current_beforeStart simulation.tickSubmissions
      simulation.beforeStart.engine.now
    have hselected := hnext.symm.trans hbefore.accounts.next?_eq
    obtain ⟨hdeferred, hcalled, hstacked⟩ :=
      next?_eq_none_iff.1 (Option.map_eq_none_iff.1 hselected.symm)
    have hupcoming := h.upcoming_beforeStart _ hstacked
    have hdrains : (ledger.beforeStart simulation.tickSubmissions
        simulation.beforeStart.engine.now).Drains simulation.beforeStart :=
      ⟨⟨_, first, hbefore⟩, hupcoming, hdeferred, hstacked⟩
    obtain ⟨hslowTick, hslowLine⟩ := hdrains.startNext hcurrent
    -- the jump releases more of the line, and the start then takes the first of it
    have hnow := simulation.beforeStart.engine.now_advanceClockTo due
    have hjumped := (hbefore.with_engine (hbefore.accounts.advanceClockTo due) rfl rfl
      (Engine.nextId_advanceClockTo _ due) (hnow.symm ▸ Nat.le_max_left _ _)).congr_settings
        simulation.beforeStart.ticks { simulation.beforeStart.settings with fastForward := true }
    have hforward : Drains _ (({ simulation.beforeStart with
        engine := (simulation.beforeStart.engine.advanceClockTo due).2 } :
          Simulation).setFastForward true) :=
      ⟨⟨_, first, hjumped⟩, hupcoming, hdeferred, hstacked⟩
    obtain ⟨hfastTick, hfastLine⟩ := hforward.startNext hcurrent
    rw [← Simulation.tick_snd] at hslowTick
    rw [← hjump, ← Simulation.tick_snd] at hfastTick
    exact ⟨_, _, hslowTick, hfastTick, hslowLine.trans
      ((line_release _).symm.trans hfastLine.symm)⟩

end Ledger

/-! ## Runs -/

namespace Simulation

/-- The two runs are the same, or they have come to drained simulations with the
same line. -/
theorem runFor_setFastForward (ticks : Nat) :
    ∀ simulation : Simulation, simulation.Balanced → simulation.settings.fastForward = false →
      runFor ticks (simulation.setFastForward true) =
          (runFor ticks simulation).setFastForward true ∨
        ∃ slow fast : Ledger, slow.Drains (runFor ticks simulation) ∧
          fast.Drains (runFor ticks (simulation.setFastForward true)) ∧
          slow.line = fast.line := by
  induction ticks with
  | zero => exact fun simulation _ _ => .inl rfl
  | succ ticks ih =>
      intro simulation hbalanced hslow
      have hnext := hbalanced.tick
      obtain ⟨ledger, submissions, first, h⟩ := hbalanced
      by_cases hdone : simulation.isDone = true
      · left
        have hfast : (simulation.setFastForward true).isDone = true := hdone
        rw [runFor, runFor, if_pos hdone, if_pos hfast]
      · have hfast : ¬ (simulation.setFastForward true).isDone = true := hdone
        rw [runFor, runFor, if_neg hdone, if_neg hfast]
        rcases h.tick_setFastForward hslow with hsame | ⟨slow, fast, hslowTick, hfastTick, hline⟩
        · -- no jump yet
          rw [hsame]
          exact ih simulation.tick.2 hnext (by rw [settings_tick, hslow])
        · -- the rest of both runs moves along one line, each at its own pace
          right
          obtain ⟨slowLast, hslowLast, hslowLine⟩ := hslowTick.runFor ticks
          obtain ⟨fastLast, hfastLast, hfastLine⟩ := hfastTick.runFor ticks
          exact ⟨slowLast, fastLast, hslowLast, hfastLast,
            hslowLine.trans (hline.trans hfastLine.symm)⟩

/-- A run that comes to the end does the same with fast-forwarding, in no more
ticks. -/
theorem runFor_of_isDone (ticks : Nat) {simulation : Simulation}
    (hbalanced : simulation.Balanced) (hslow : simulation.settings.fastForward = false)
    (hdone : (runFor ticks simulation).isDone = true) :
    let slow := runFor ticks simulation
    let fast := runFor ticks (simulation.setFastForward true)
    fast.isDone = true ∧ fast.ticks ≤ slow.ticks ∧
      fast.executed.map ExecutedTask.untimed = slow.executed.map ExecutedTask.untimed ∧
      fast.console = slow.console := by
  have hleft := ticksLeft_le_of_runFor ticks simulation hbalanced hdone
  have hlimit := ticks_runFor_le ticks simulation
  have hfast : (simulation.setFastForward true).Balanced := by
    obtain ⟨ledger, submissions, first, h⟩ := hbalanced
    exact ⟨ledger, submissions, first, h.congr_settings simulation.ticks _⟩
  have henough : (simulation.setFastForward true).ticksLeft ≤ ticks := by
    -- the slow run had this many ticks to come to the end, and the fast one needs no more
    have hsame : (simulation.setFastForward true).ticksLeft = simulation.ticksLeft := rfl
    omega
  obtain ⟨hend, hticks⟩ := runFor_fastForward ticks _ hfast rfl henough
  refine ⟨hend, ?_, ?_⟩
  · calc (runFor ticks (simulation.setFastForward true)).ticks
        = simulation.ticks + simulation.ticksLeft := hticks
      _ ≤ (runFor ticks simulation).ticks := hleft
  · rcases runFor_setFastForward ticks simulation hbalanced hslow with heq |
      ⟨slow, fast, hslowDrains, hfastDrains, hline⟩
    · rw [heq]
      exact ⟨rfl, rfl⟩
    · obtain ⟨hslowExecuted, hslowConsole⟩ := hslowDrains.executed_of_isDone hdone
      obtain ⟨hfastExecuted, hfastConsole⟩ := hfastDrains.executed_of_isDone hend
      rw [hslowExecuted, hslowConsole, hfastExecuted, hfastConsole, hline]
      exact ⟨rfl, rfl⟩

/-- **Fast-forwarding changes neither what is executed nor in which order.**  If
a script comes to the end without it then it does so with it, in no more ticks,
and executes and prints the same. -/
theorem run_setFastForward (source : String) (config : Config)
    (hcompleted : (load source (config.setFastForward false)).run.report.completed = true) :
    let slow := (load source (config.setFastForward false)).run.report
    let fast := (load source (config.setFastForward true)).run.report
    fast.completed = true ∧ fast.ticks ≤ slow.ticks ∧
      fast.executed.map ExecutedTask.untimed = slow.executed.map ExecutedTask.untimed ∧
      fast.console = slow.console :=
  runFor_of_isDone _ (.load source (config.setFastForward false)) rfl hcompleted

/-- A timer without delay elapses in the tick that sets it, however long the
tick is. -/
theorem run_setFastForward_timer :
    let slow := (load "setTimeout(f, 0); console.log(1)"
      (Config.setFastForward {} false)).run.report
    let fast := (load "setTimeout(f, 0); console.log(1)"
      (Config.setFastForward {} true)).run.report
    slow.completed = true ∧ fast.completed = true ∧ fast.ticks ≤ slow.ticks ∧
      fast.executed.map ExecutedTask.untimed = slow.executed.map ExecutedTask.untimed ∧
      fast.console = slow.console := by
  have hcompleted : (load "setTimeout(f, 0); console.log(1)"
      (Config.setFastForward {} false)).run.report.completed = true := by decide +kernel
  exact ⟨hcompleted, run_setFastForward _ {} hcompleted⟩

end Simulation

end EventLoop
