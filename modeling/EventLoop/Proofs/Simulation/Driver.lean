import EventLoop.Proofs.Simulation.Chronicle
import EventLoop.Proofs.Simulation.History
import EventLoop.Proofs.Simulation.Phases
import Mathlib

/-!
# What a ticker does

A ticker keeps what its handle asks for, and a speed of its own, which it
compares with that of the simulation.  `Simulation.drive` is a plain loop that
keeps neither: it looks everything up in the history of the handle.  A ticker
`Heeds` a history if it keeps what can be read off it; actions and ticks preserve
this, and so the ticker and the loop do the same.
-/

namespace EventLoop

open History

/-- Only a valid speed itself compares equal to it: it is neither a zero nor
not a number. -/
theorem eq_of_beq_of_isValidSpeed {speed other : Float} (hvalid : isValidSpeed speed = true)
    (h : (speed == other) = true) : speed = other := by
  have hzero : isValidSpeed 0 = false := by decide +kernel
  have hnegative : isValidSpeed (-0) = false := by decide +kernel
  obtain ⟨-, -, heq | ⟨rfl, -⟩ | ⟨rfl, -⟩⟩ := Float.beq_iff_ne_nan_and_eq.1 h
  · exact heq
  · exact absurd hvalid (Bool.eq_false_iff.1 hzero)
  · exact absurd hvalid (Bool.eq_false_iff.1 hnegative)

/-! ## The plain loop -/

namespace Simulation

/-- Sets the speed that a history asks for, if it asks for one. -/
def setLastSpeed (simulation : Simulation) (history : List HandleAction) : Simulation :=
  match lastSpeed? history with
  | some speed => simulation.setSpeed speed
  | none => simulation

theorem setSpeed_self (simulation : Simulation) :
    simulation.setSpeed simulation.settings.speed = simulation := by
  unfold setSpeed
  split <;> rfl

/-- A ticker may leave out what compares equal to the speed at hand. -/
theorem setSpeed_of_beq {simulation : Simulation} {speed : Float}
    (h : (speed == simulation.settings.speed) = true) :
    simulation.setSpeed speed = simulation := by
  by_cases hvalid : isValidSpeed speed = true
  · rw [eq_of_beq_of_isValidSpeed hvalid h, setSpeed_self]
  · rw [setSpeed, if_neg hvalid]

theorem setLastSpeed_frame (simulation : Simulation) (history : List HandleAction) :
    ∃ settings : TickerConfig, settings.maxTicks = simulation.settings.maxTicks ∧
      simulation.setLastSpeed history = { simulation with settings } := by
  unfold setLastSpeed
  split
  · exact simulation.setSpeed_frame _
  · exact ⟨simulation.settings, rfl, rfl⟩

theorem maxTicks_sub_ticks_setLastSpeed (simulation : Simulation) (history : List HandleAction) :
    (simulation.setLastSpeed history).tick.2.settings.maxTicks -
        (simulation.setLastSpeed history).tick.2.ticks =
      simulation.settings.maxTicks - (simulation.ticks + 1) := by
  obtain ⟨settings, hmax, hset⟩ := simulation.setLastSpeed_frame history
  rw [settings_tick, ticks_tick, hset, ← hmax]

/-- Ticks until the script is done, the limit is reached, or a handle with the
given history, to which `after` adds the actions after each tick, wants to stop
or is given up when paused. -/
def drive (after : Nat → List HandleAction) (history : List HandleAction)
    (simulation : Simulation) : List TickReport × Simulation :=
  if simulation.isDone ∨ simulation.settings.maxTicks ≤ simulation.ticks ∨
      isStopped history ∨ (isPaused history ∧ isGone history) then ([], simulation)
  else
    let ticked := (simulation.setLastSpeed history).tick
    let rest := drive after (close (history ++ after ticked.1.tick)) ticked.2
    (ticked.1 :: rest.1, rest.2)
termination_by simulation.settings.maxTicks - simulation.ticks
decreasing_by
  rename_i hgoes
  have hlimit : simulation.ticks < simulation.settings.maxTicks :=
    Nat.lt_of_not_le fun hover => hgoes (.inr (.inl hover))
  rw [maxTicks_sub_ticks_setLastSpeed]
  exact Nat.sub_lt_sub_left hlimit (Nat.lt_succ_self _)

/-- A loop whose handle asks for nothing is a run. -/
theorem drive_of_idle {after : Nat → List HandleAction} (hafter : ∀ tick, Idle (after tick))
    {history : List HandleAction} (h : Idle history) (chronicle : Chronicle) {ticks : Nat}
    (hticks : chronicle.simulation.settings.maxTicks - chronicle.simulation.ticks = ticks) :
    chronicle.reports ++ (chronicle.simulation.drive after history).1 =
        (Chronicle.runFor ticks chronicle).reports ∧
      (chronicle.simulation.drive after history).2 =
        (Chronicle.runFor ticks chronicle).simulation := by
  induction ticks generalizing chronicle history with
  | zero =>
      have hlimit : chronicle.simulation.settings.maxTicks ≤ chronicle.simulation.ticks := by
        omega
      rw [drive, if_pos (.inr (.inl hlimit))]
      exact ⟨List.append_nil _, rfl⟩
  | succ ticks ih =>
      have hsame : chronicle.simulation.setLastSpeed history = chronicle.simulation := by
        rw [setLastSpeed, h.speed]
      rw [drive, Chronicle.runFor]
      by_cases hdone : chronicle.simulation.isDone = true
      · rw [if_pos (.inl hdone), if_pos hdone]
        exact ⟨List.append_nil _, rfl⟩
      · have hgoes : ¬ (chronicle.simulation.isDone ∨
            chronicle.simulation.settings.maxTicks ≤ chronicle.simulation.ticks ∨
              isStopped history ∨ (isPaused history ∧ isGone history)) := by
          rw [h.stopped, h.paused]
          rintro (hdone' | hlimit | hstopped | ⟨hpaused, -⟩)
          · exact hdone hdone'
          · omega
          · contradiction
          · contradiction
        rw [if_neg hgoes, if_neg hdone, hsame]
        have hhistory := (h.append (hafter chronicle.simulation.tick.1.tick)).close
        have hleft : chronicle.tick.simulation.settings.maxTicks -
            chronicle.tick.simulation.ticks = ticks := by
          rw [Chronicle.tick, settings_tick, ticks_tick]
          omega
        obtain ⟨hreports, hend⟩ := ih hhistory chronicle.tick hleft
        refine ⟨?_, hend⟩
        rw [← hreports, Chronicle.tick, List.append_assoc]
        rfl

end Simulation

/-! ## The ticker heeds the history -/

namespace Ticker

variable {ticker : Ticker} {history : List HandleAction}

/-- A ticker keeps what its handle has asked for. -/
structure Heeds (ticker : Ticker) (history : List HandleAction) : Prop where
  handle : ticker.hasHandle = !isGone history
  paused : ticker.control.paused = isPaused history
  stopped : ticker.control.stopped = isStopped history
  speed : ticker.control.speed = (lastSpeed? history).getD ticker.simulation.settings.speed

theorem heeds_ofSimulation (simulation : Simulation) : (ofSimulation simulation).Heeds [] :=
  ⟨rfl, rfl, rfl, rfl⟩

theorem apply_of_no_handle (h : ticker.hasHandle = false) (action : HandleAction) :
    ticker.apply action = ticker := by
  unfold apply
  rw [h]
  rfl

/-- What an action does, as long as the handle is there. -/
theorem apply_of_handle (h : ticker.hasHandle = true) (action : HandleAction) :
    ticker.apply action =
      { simulation := ticker.simulation
        control :=
          { paused := action.pausing?.getD ticker.control.paused
            stopped := ticker.control.stopped || action.isStop
            speed := action.speed?.getD ticker.control.speed }
        hasHandle := !action.isDrop } := by
  obtain ⟨simulation, ⟨paused, stopped, speed⟩, handle⟩ := ticker
  cases h
  cases action with
  | speed value =>
      by_cases hvalid : isValidSpeed value = true <;>
        simp [apply, HandleAction.pausing?, HandleAction.isStop, HandleAction.isDrop,
          HandleAction.speed?, hvalid]
  | pause | resume | stop | drop =>
      simp [apply, HandleAction.pausing?, HandleAction.isStop, HandleAction.isDrop,
        HandleAction.speed?]

theorem apply_drop (ticker : Ticker) :
    ticker.apply .drop = { ticker with hasHandle := false } := by
  cases h : ticker.hasHandle with
  | false => rw [apply_of_no_handle h, ← h]
  | true =>
      rw [apply_of_handle h]
      simp [HandleAction.pausing?, HandleAction.isStop, HandleAction.isDrop, HandleAction.speed?]

theorem simulation_apply (ticker : Ticker) (action : HandleAction) :
    (ticker.apply action).simulation = ticker.simulation := by
  cases h : ticker.hasHandle with
  | false => rw [apply_of_no_handle h]
  | true => rw [apply_of_handle h]

theorem simulation_foldl_apply (ticker : Ticker) (actions : List HandleAction) :
    (actions.foldl apply ticker).simulation = ticker.simulation := by
  induction actions generalizing ticker with
  | nil => rfl
  | cons action rest ih => exact (ih (ticker.apply action)).trans (simulation_apply ticker action)

theorem simulation_applyAll (ticker : Ticker) (actions : List HandleAction) :
    (ticker.applyAll actions).simulation = ticker.simulation := by
  simp only [applyAll]
  split <;> exact simulation_foldl_apply ticker actions

namespace Heeds

theorem congr (h : ticker.Heeds history) {other : List HandleAction}
    (hagree : Agree history other) : ticker.Heeds other where
  handle := by rw [h.handle, hagree.gone]
  paused := by rw [h.paused, hagree.paused]
  stopped := by rw [h.stopped, hagree.stopped]
  speed := by rw [h.speed, hagree.speed]

theorem apply (h : ticker.Heeds history) (action : HandleAction) :
    (ticker.apply action).Heeds (history ++ [action]) := by
  cases hgone : isGone history with
  | true =>
      have hhandle : ticker.hasHandle = false := by rw [h.handle, hgone]; rfl
      rw [apply_of_no_handle hhandle]
      exact h.congr (Agree.of_isGone hgone [action])
  | false =>
      have hhandle : ticker.hasHandle = true := by rw [h.handle, hgone]; rfl
      rw [apply_of_handle hhandle]
      refine ⟨?_, ?_, ?_, ?_⟩
      · rw [isGone_append, hgone]
        simp [isGone]
      · rw [isPaused_append hgone, last?_singleton _ rfl, h.paused]
      · rw [isStopped_append hgone, h.stopped]
        cases action <;> rfl
      · have hread : lastSpeed? [action] = action.speed? := last?_singleton _ rfl action
        rw [lastSpeed?_append hgone, hread, h.speed]
        cases action.speed? <;> rfl

theorem foldl_apply (h : ticker.Heeds history) (actions : List HandleAction) :
    (actions.foldl Ticker.apply ticker).Heeds (history ++ actions) := by
  induction actions generalizing ticker history with
  | nil => rwa [List.append_nil]
  | cons action rest ih =>
      have hrest := ih (h.apply action)
      rwa [List.append_assoc] at hrest

theorem applyAll (h : ticker.Heeds history) (actions : List HandleAction) :
    (ticker.applyAll actions).Heeds (close (history ++ actions)) := by
  have hactions := h.foldl_apply actions
  simp only [Ticker.applyAll, close, hactions.paused]
  split
  · rw [← apply_drop]
    exact hactions.apply .drop
  · exact hactions

theorem isOver_iff (h : ticker.Heeds history) :
    ticker.isOver = true ↔
      ticker.simulation.isDone ∨ ticker.simulation.settings.maxTicks ≤ ticker.simulation.ticks ∨
        isStopped history ∨ (isPaused history ∧ isGone history) := by
  simp [Ticker.isOver, h.stopped, h.paused, h.handle, or_assoc]

theorem setLastSpeed_eq (h : ticker.Heeds history) :
    ticker.simulation.setLastSpeed history =
      ticker.simulation.setSpeed ticker.control.speed := by
  rw [h.speed, Simulation.setLastSpeed]
  cases lastSpeed? history with
  | none => exact ticker.simulation.setSpeed_self.symm
  | some speed => rfl

theorem takeSpeed_eq (h : ticker.Heeds history) :
    ticker.takeSpeed =
      { ticker with simulation := ticker.simulation.setLastSpeed history } := by
  rw [h.setLastSpeed_eq, takeSpeed]
  split
  next => rfl
  next hsame => rw [Simulation.setSpeed_of_beq (by simpa [bne] using hsame)]

theorem tick (h : ticker.Heeds history) :
    ({ ticker with simulation := (ticker.simulation.setLastSpeed history).tick.2 } :
      Ticker).Heeds history := by
  refine ⟨h.handle, h.paused, h.stopped, h.speed.trans ?_⟩
  -- the speed of the simulation is asked for only if the handle has set none
  cases hlast : lastSpeed? history with
  | none =>
      have hsame : ticker.simulation.setLastSpeed history = ticker.simulation := by
        rw [Simulation.setLastSpeed, hlast]
      rw [hsame, Simulation.settings_tick]
  | some speed => rfl

/-- A ticker does what the plain loop does. -/
theorem runFor_eq (h : ticker.Heeds history) (after : Nat → List HandleAction) {ticks : Nat}
    (hticks : ticker.simulation.settings.maxTicks - ticker.simulation.ticks = ticks) :
    (runFor after ticks ticker).1 = (ticker.simulation.drive after history).1 ∧
      (runFor after ticks ticker).2.simulation = (ticker.simulation.drive after history).2 := by
  -- the ticker counts down the ticks up to the limit, where the loop ends as well
  induction ticks generalizing ticker history with
  | zero =>
      have hover : ticker.simulation.settings.maxTicks ≤ ticker.simulation.ticks := by omega
      rw [Simulation.drive, if_pos (.inr (.inl hover))]
      exact ⟨rfl, rfl⟩
  | succ ticks ih =>
      rw [runFor, Simulation.drive]
      by_cases hover : ticker.isOver = true
      · rw [if_pos hover, if_pos (h.isOver_iff.1 hover)]
        exact ⟨rfl, rfl⟩
      · rw [if_neg hover, if_neg (fun hends => hover (h.isOver_iff.2 hends)), h.takeSpeed_eq]
        have hnext := h.tick.applyAll
          (after (ticker.simulation.setLastSpeed history).tick.1.tick)
        have hleft := ticker.simulation.maxTicks_sub_ticks_setLastSpeed history
        have hsame : (Ticker.applyAll _ _).simulation = _ := simulation_applyAll
          { ticker with simulation := (ticker.simulation.setLastSpeed history).tick.2 }
          (after (ticker.simulation.setLastSpeed history).tick.1.tick)
        obtain ⟨hreports, hsimulation⟩ := ih hnext (by rw [hsame, hleft]; omega)
        rw [hsame] at hreports hsimulation
        exact ⟨congrArg (_ :: ·) hreports, hsimulation⟩

theorem eq_of_agree (h : ticker.Heeds history) {other : Ticker} {others : List HandleAction}
    (hother : other.Heeds others) (hagree : Agree history others)
    (hsimulation : ticker.simulation = other.simulation) : ticker = other := by
  obtain ⟨hhandle, hpaused, hstopped, hspeed⟩ := h.congr hagree
  obtain ⟨simulation, ⟨paused, stopped, speed⟩, handle⟩ := ticker
  obtain ⟨othersimulation, ⟨otherpaused, otherstopped, otherspeed⟩, otherhandle⟩ := other
  cases hsimulation
  cases hhandle.trans hother.handle.symm
  cases hpaused.trans hother.paused.symm
  cases hstopped.trans hother.stopped.symm
  cases hspeed.trans hother.speed.symm
  rfl

theorem applyAll_alike (h : ticker.Heeds history) (hsettled : Settled history)
    {actions others : List HandleAction} (halike : Alike actions others) :
    ticker.applyAll actions = ticker.applyAll others := by
  have hsame : actions.foldl Ticker.apply ticker = others.foldl Ticker.apply ticker :=
    (h.foldl_apply actions).eq_of_agree (h.foldl_apply others) (halike.agree hsettled)
      ((simulation_foldl_apply ticker actions).trans (simulation_foldl_apply ticker others).symm)
  simp only [Ticker.applyAll, hsame]

theorem runFor_alike (h : ticker.Heeds history) (hsettled : Settled history)
    {after other : Nat → List HandleAction} (halike : ∀ tick, Alike (after tick) (other tick))
    (ticks : Nat) : runFor after ticks ticker = runFor other ticks ticker := by
  induction ticks generalizing ticker history with
  | zero => rfl
  | succ ticks ih =>
      rw [runFor, runFor]
      by_cases hover : ticker.isOver = true
      · rw [if_pos hover, if_pos hover]
      · rw [if_neg hover, if_neg hover, h.takeSpeed_eq]
        let tick := (ticker.simulation.setLastSpeed history).tick.1.tick
        have hactions := h.tick.applyAll_alike hsettled (halike tick)
        have hrest := ih (h.tick.applyAll (other tick)) (settled_close _)
        simp only [hactions, hrest, tick]

end Heeds

/-- **A ticker is a plain loop over its simulation**: it gives the same reports
and comes to the same end.  A pause that is resumed and an invalid speed have no
effect, and without any action that has one, the ticker runs the simulation to
the end. -/
theorem run_eq_drive (source : String) (config : Config) (before : List HandleAction)
    (after : Nat → List HandleAction) :
    let simulation := Simulation.load source config
    let result := ((ofSimulation simulation).applyAll before).run after
    let plain := simulation.drive after (close before)
    (result.1 = plain.1 ∧ result.2.simulation.report = plain.2.report) ∧
      (∀ (lessBefore : List HandleAction) (lessAfter : Nat → List HandleAction),
        Alike before lessBefore → (∀ tick, Alike (after tick) (lessAfter tick)) →
          ((ofSimulation simulation).applyAll lessBefore).run lessAfter = result) ∧
      (Idle before → (∀ tick, Idle (after tick)) →
        result.1 = (Chronicle.load source config).run.reports ∧
          result.2.simulation.report = simulation.run.report) := by
  intro simulation result plain
  have hstart := heeds_ofSimulation simulation
  have hbefore := hstart.applyAll before
  have hsimulation : ((ofSimulation simulation).applyAll before).simulation = simulation :=
    simulation_applyAll _ before
  have hplain : result.1 = plain.1 ∧ result.2.simulation = plain.2 := by
    have hrun : result.1 = (((ofSimulation simulation).applyAll before).simulation.drive after
          (close before)).1 ∧
        result.2.simulation = (((ofSimulation simulation).applyAll before).simulation.drive after
          (close before)).2 := hbefore.runFor_eq after rfl
    rw [hsimulation] at hrun
    exact hrun
  refine ⟨⟨hplain.1, congrArg Simulation.report hplain.2⟩, ?_, ?_⟩
  · intro lessBefore lessAfter hless halike
    have hsettled : Settled [] := fun hpaused => by contradiction
    have hsame := hstart.applyAll_alike hsettled hless
    rw [← hsame]
    exact (hbefore.runFor_alike (settled_close _) halike _).symm
  · intro hidle hafter
    obtain ⟨hreports, hend⟩ := Simulation.drive_of_idle hafter hidle.close
      (Chronicle.load source config) rfl
    refine ⟨hplain.1.trans hreports, congrArg Simulation.report (hplain.2.trans ?_)⟩
    exact hend.trans (Chronicle.simulation_runFor _ _)

/-- A speed of zero goes unnoticed, and so does the pause that it is set in. -/
theorem run_eq_drive_resumed :
    let simulation := Simulation.load "setTimeout(f, 5); console.log(1)" {}
    let result := ((ofSimulation simulation).applyAll [.pause, .speed 0, .resume]).run fun _ => []
    result = ((ofSimulation simulation).applyAll []).run (fun _ => []) ∧
      result.2.simulation.report = simulation.run.report := by
  have hinvalid : isValidSpeed 0 = false := by decide +kernel
  have hidle : Idle [.pause, .speed 0, .resume] := by
    refine ⟨rfl, rfl, ?_⟩
    simp [lastSpeed?, last?, heard, HandleAction.isDrop, HandleAction.speed?, hinvalid]
  have halike : Alike [.pause, .speed 0, .resume] [] :=
    @Alike.resumed [] [.speed 0] [] [] (fun h => h) rfl rfl
      (@Alike.ignored [] [] [] 0 hinvalid (.refl []))
  obtain ⟨-, hsame, hrun⟩ := run_eq_drive "setTimeout(f, 5); console.log(1)" {}
    [.pause, .speed 0, .resume] fun _ => []
  have hnone : Idle [] := ⟨rfl, rfl, rfl⟩
  have hless := hsame [] (fun _ => []) halike fun _ => .refl []
  have hreport := (hrun hidle fun _ => hnone).2
  exact ⟨hless.symm, hreport⟩

end Ticker

end EventLoop
