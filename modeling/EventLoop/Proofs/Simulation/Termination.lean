import EventLoop.Proofs.Simulation.Countdown

/-!
# Which runs come to an end

A tick that starts nothing and does not end the run leaves tasks behind that
wait for a moment in the future (`exists_waiting_of_not_started`).  There are
three reasons why that cannot go on for ever: time jumps to the next timer; or
every tick takes time, and at the horizon all timers have elapsed; or no timer
has a delay, so that it elapses in the tick that sets it.  Each makes the sum of
the ticks and of the time that are left smaller from tick to tick
(`ticksBound_tick_lt`).

Without any of them the run does stall.  A tick is rounded to whole
milliseconds, so one of less than half a millisecond takes no time at all, and
a timer with a delay is then never due (`not_finishes_of_stalled`).
-/

namespace EventLoop

namespace Simulation

variable {simulation : Simulation}

/-! ## The time of a tick -/

theorem now_finishRunning (simulation : Simulation) :
    simulation.finishRunning.2.engine.now = simulation.engine.now := by
  unfold finishRunning
  split
  · rfl
  · rename_i id _
    have hfinish := finish_snd simulation.engine id
    exact (congrArg Engine.now hfinish).trans (now_finishCall simulation.engine id)

theorem now_refill (simulation : Simulation) :
    simulation.refill.engine.now = simulation.engine.now := by
  unfold refill
  split
  · exact now_submitUntilSync simulation.upcoming simulation.engine
  · rfl

theorem later_le_now_moveTime (simulation : Simulation) :
    later simulation.engine.now simulation.virtualStepMs ≤ simulation.moveTime.2.engine.now := by
  have hnow := simulation.engine.now_advanceClock simulation.virtualStepMs
  unfold moveTime jump
  dsimp only
  split
  · rename_i due _ _ _
    have hjump := (simulation.engine.advanceClock simulation.virtualStepMs).2.now_advanceClockTo due
    dsimp only
    rw [hjump, hnow]
    exact Nat.le_max_left _ _
  · dsimp only
    rw [hnow]

/-- A tick takes the time that it is given, and more only if it jumps. -/
theorem later_le_now_tick (simulation : Simulation) :
    later simulation.engine.now simulation.virtualStepMs ≤ simulation.tick.2.engine.now ∧
      (simulation.settings.fastForward = false →
        simulation.tick.2.engine.now = later simulation.engine.now simulation.virtualStepMs) := by
  let refilled : Simulation :=
    ({ simulation.finishRunning.2 with ticks := simulation.ticks + 1 } : Simulation).refill
  have hnow : refilled.engine.now = simulation.engine.now :=
    (now_refill _).trans simulation.now_finishRunning
  have hsettings : refilled.settings = simulation.settings := by
    obtain ⟨_, hfinish⟩ := simulation.finishRunning_frame
    obtain ⟨_, _, hrefill⟩ := refill_frame
      ({ simulation.finishRunning.2 with ticks := simulation.ticks + 1 } : Simulation)
    simp only [refilled, hrefill, hfinish]
  have hstep : refilled.virtualStepMs = simulation.virtualStepMs :=
    congrArg TickerConfig.virtualStepMs hsettings
  have htick : simulation.tick.2.engine.now = refilled.moveTime.2.engine.now := by
    rw [tick_snd, now_startNext]
    rfl
  rw [htick, ← hnow, ← hstep]
  refine ⟨refilled.later_le_now_moveTime, fun hslow => ?_⟩
  rw [refilled.moveTime_stay (.inl (hsettings ▸ hslow))]
  exact refilled.engine.now_advanceClock refilled.virtualStepMs

/-! ## The tasks that wait -/

theorem submittedAt_submissionsUntilSync (steps : List Step) :
    ∀ engine : Engine, ∀ submission ∈ submissionsUntilSync engine steps,
      submission.submittedAt = engine.now := by
  induction steps with
  | nil => exact fun engine submission hmem => absurd hmem List.not_mem_nil
  | cons step rest ih =>
      intro engine submission hmem
      rw [submissionsUntilSync] at hmem
      rcases List.mem_cons.1 hmem with rfl | hmem
      · rfl
      · split at hmem
        · exact absurd hmem List.not_mem_nil
        · rw [ih _ submission hmem]
          exact engine.submit_now step

/-- The steps of a tick are submitted before it takes any time. -/
theorem submittedAt_tickSubmissions (simulation : Simulation) :
    ∀ submission ∈ simulation.tickSubmissions,
      submission.submittedAt = simulation.engine.now := by
  intro submission hmem
  unfold tickSubmissions refillSubmissions at hmem
  split at hmem
  · rw [submittedAt_submissionsUntilSync _ _ submission hmem]
    exact simulation.now_finishRunning
  · exact absurd hmem List.not_mem_nil

/-- Time goes on, or no timer has a delay. -/
def Progresses (simulation : Simulation) : Prop :=
  simulation.settings.fastForward = true ∨ 0 < simulation.virtualStepMs ∨
    ∀ step ∈ simulation.extraction.steps, step.targetQueue = .pendingAsync → step.delayMs = 0

theorem Progresses.tick (h : simulation.Progresses) : simulation.tick.2.Progresses := by
  unfold Progresses virtualStepMs
  rw [settings_tick, extraction_tick]
  exact h

/-- The ticks and the time that are left. -/
def ticksBound (simulation : Simulation) : Nat :=
  simulation.ticksLeft + (horizon - simulation.engine.now)

end Simulation

namespace Ledger.Balances

variable {ledger : Ledger} {submissions : List Submission} {simulation : Simulation}
  {first : Nat}

/-- A tick that neither starts a task nor ends the run leaves tasks waiting for
a later moment. -/
theorem exists_waiting_of_not_started (h : ledger.Balances submissions first simulation)
    (hstarted : simulation.tick.1.started = none) (hdone : ¬ simulation.tick.2.isDone = true) :
    ∃ submission ∈ submissions ++ simulation.tickSubmissions,
      submission.isTimed = true ∧ simulation.tick.2.engine.now < submission.dueAt := by
  have hnow : simulation.tick.2.engine.now = simulation.beforeStart.engine.now := by
    rw [Simulation.tick_snd, Simulation.now_startNext]
  rw [h.isDone_tick_iff_waiting hstarted] at hdone
  obtain ⟨submission, rest, hwaiting⟩ := List.exists_cons_of_ne_nil hdone
  have hmem : submission ∈ (ledger.beforeStart simulation.tickSubmissions
      simulation.beforeStart.engine.now).timedLine :=
    List.mem_append_right _ (hwaiting ▸ List.mem_cons_self)
  have hordered := h.beforeStart.accounts.ordered
  refine ⟨submission, hordered.mem_of_mem_timedLine hmem, hordered.isTimed_eq_true hmem, ?_⟩
  rw [hnow]
  have hlate := List.head?_dropWhile_not (·.dueAt ≤ simulation.beforeStart.engine.now)
    (simulation.tickSubmissions.foldl submit ledger.finish).waiting
  have hrest : (simulation.tickSubmissions.foldl submit ledger.finish).waiting.dropWhile
      (·.dueAt ≤ simulation.beforeStart.engine.now) = submission :: rest := hwaiting
  rw [hrest] at hlate
  simpa using hlate

/-- At the end every timer was due. -/
theorem dueAt_le_of_isDone (h : ledger.Balances submissions first simulation)
    (hdone : simulation.isDone = true) {step : Step} (hstep : step ∈ simulation.extraction.steps)
    (htimed : step.targetQueue = .pendingAsync) :
    ∃ submission ∈ submissions, submission.task.delayMs = step.delayMs ∧
      submission.dueAt ≤ simulation.engine.now := by
  obtain ⟨hupcoming, hremaining⟩ := h.isDone_iff_remaining.1 hdone
  obtain ⟨done, hsteps, htasks, -⟩ := h.follows.exists_done
  rw [hupcoming, List.append_nil] at hsteps
  obtain ⟨index, hindex, hget⟩ := List.mem_iff_getElem.1 (hsteps ▸ hstep)
  have htask : Task.ofStep (first + index) step ∈ submissions.map (·.task) := by
    rw [htasks, Simulation.mem_numbered]
    exact ⟨index, hindex, by rw [hget]⟩
  obtain ⟨submission, hmem, heq⟩ := List.mem_map.1 htask
  have hstarted : submission ∈ ledger.started := by
    have hperm := h.accounts.ordered.perm_remaining
    rw [hremaining, List.append_nil] at hperm
    exact List.mem_append_left _ (hperm.mem_iff.2 hmem)
  have hqueue : submission.isTimed = true := by
    rw [Submission.isTimed, heq]
    exact decide_eq_true htimed
  refine ⟨submission, hmem, by rw [heq]; rfl, h.accounts.ordered.dueAt_le submission ?_⟩
  exact List.mem_append_left _ (List.mem_filter.2 ⟨hstarted, hqueue⟩)

end Ledger.Balances

/-! ## Runs that come to an end -/

namespace Chronicle

variable {chronicle : Chronicle}

/-- There is a ledger, and nothing was submitted ahead of its time. -/
structure Timely (chronicle : Chronicle) : Prop where
  balances : ∃ (ledger : Ledger) (first : Nat),
    ledger.Balances chronicle.submissions first chronicle.simulation
  submittedAt_le : ∀ submission ∈ chronicle.submissions,
    submission.submittedAt ≤ chronicle.simulation.engine.now

namespace Timely

theorem load (source : String) (config : Config) : (load source config).Timely :=
  ⟨⟨{}, 1, .load source config⟩, by simp [Chronicle.load]⟩

theorem now_le_tick (h : chronicle.Timely) :
    chronicle.simulation.engine.now ≤ chronicle.simulation.tick.2.engine.now := by
  obtain ⟨ledger, first, hbalances⟩ := h.balances
  refine le_trans ?_ chronicle.simulation.later_le_now_tick.1
  exact Nat.le_min.2 ⟨hbalances.accounts.now_le, Nat.le_add_right _ _⟩

protected theorem tick (h : chronicle.Timely) : chronicle.tick.Timely := by
  have hnow := h.now_le_tick
  obtain ⟨⟨ledger, first, hbalances⟩, hsubmitted⟩ := h
  refine ⟨⟨_, first, hbalances.tick⟩, ?_⟩
  intro submission hmem
  rcases List.mem_append.1 hmem with hmem | hmem
  · exact (hsubmitted submission hmem).trans hnow
  · rw [chronicle.simulation.submittedAt_tickSubmissions submission hmem]
    exact hnow

/-- If time goes on then a tick that leaves tasks waiting has taken some. -/
theorem now_lt_tick (h : chronicle.Timely) (hprogress : chronicle.simulation.Progresses)
    (hstarted : chronicle.simulation.tick.1.started = none)
    (hdone : ¬ chronicle.simulation.tick.2.isDone = true) :
    chronicle.simulation.engine.now < chronicle.simulation.tick.2.engine.now ∧
      chronicle.simulation.tick.2.engine.now < horizon := by
  obtain ⟨ledger, first, hbalances⟩ := h.balances
  obtain ⟨submission, hmem, htimed, hdue⟩ :=
    hbalances.exists_waiting_of_not_started hstarted hdone
  have hbelow : chronicle.simulation.tick.2.engine.now < horizon :=
    hdue.trans_le (Nat.min_le_left _ _)
  refine ⟨?_, hbelow⟩
  rcases hprogress with hforward | htime | hdelays
  · exact absurd (hbalances.isDone_tick_of_not_started hforward hstarted) hdone
  · -- the horizon is not reached, so the tick took its time in full
    have hlater := chronicle.simulation.later_le_now_tick.1
    unfold later at hlater
    omega
  · -- without a delay the timer would have elapsed
    obtain ⟨step, hstep, id, htask⟩ := hbalances.tick.exists_step hmem
    rw [Simulation.extraction_tick] at hstep
    have hqueue : step.targetQueue = .pendingAsync := by
      simpa [Submission.isTimed, htask, Task.ofStep] using htimed
    have hdelay : submission.task.delayMs = 0 := by
      rw [htask]
      exact hdelays step hstep hqueue
    have hearly : submission.submittedAt ≤ chronicle.simulation.tick.2.engine.now :=
      h.tick.submittedAt_le submission hmem
    rw [Submission.dueAt, later, hdelay] at hdue
    omega

/-- Every tick before the end leaves less to be waited for. -/
theorem ticksBound_tick_lt (h : chronicle.Timely) (hprogress : chronicle.simulation.Progresses)
    (hnot : ¬ chronicle.simulation.isDone = true) :
    chronicle.simulation.tick.2.ticksBound < chronicle.simulation.ticksBound := by
  have hnow := h.now_le_tick
  have hleft := Simulation.ticksLeft_of_not_isDone hnot
  obtain ⟨ledger, first, hbalances⟩ := h.balances
  unfold Simulation.ticksBound
  cases hstarted : chronicle.simulation.tick.1.started with
  | some executed =>
      have hone := hbalances.ticksLeft_tick_of_started hstarted
      omega
  | none =>
      by_cases hdone : chronicle.simulation.tick.2.isDone = true
      · rw [Simulation.ticksLeft_of_isDone hdone]
        omega
      · obtain ⟨hahead, hbelow⟩ := h.now_lt_tick hprogress hstarted hdone
        have hsame : chronicle.simulation.tick.2.ticksLeft = chronicle.simulation.ticksLeft := by
          rw [hleft, Simulation.ticksLeft_of_not_isDone hdone, chronicle.simulation.executed_tick,
            chronicle.simulation.extraction_tick, hstarted, Option.toList_none, List.append_nil]
        omega

end Timely

/-- What holds of a chronicle and is kept by ticks holds after any ticks. -/
theorem performAll_ticks_induction {motive : Chronicle → Prop}
    (tick : ∀ chronicle, motive chronicle → motive chronicle.tick) (ticks : Nat) :
    ∀ chronicle, motive chronicle → motive (chronicle.performAll (List.replicate ticks .tick)) := by
  induction ticks with
  | zero => exact fun _ h => h
  | succ ticks ih => exact fun chronicle h => ih chronicle.tick (tick chronicle h)

theorem exists_isDone (h : chronicle.Timely) (hprogress : chronicle.simulation.Progresses) :
    ∃ ticks, (chronicle.performAll (List.replicate ticks .tick)).simulation.isDone = true := by
  induction hbound : chronicle.simulation.ticksBound using Nat.strong_induction_on
    generalizing chronicle with
  | _ bound ih =>
      by_cases hdone : chronicle.simulation.isDone = true
      · exact ⟨0, hdone⟩
      · have hless := h.ticksBound_tick_lt hprogress hdone
        obtain ⟨ticks, hend⟩ := ih _ (hbound ▸ hless) h.tick hprogress.tick rfl
        exact ⟨ticks + 1, hend⟩

end Chronicle

namespace Simulation

/-- Ticks lead to the end. -/
def Finishes (simulation : Simulation) : Prop :=
  ∃ ticks, (simulation.performAll (List.replicate ticks .tick)).isDone = true

/-- If neither a tick nor a jump takes time, a timer with a delay never
elapses. -/
theorem not_finishes_of_stalled (source : String) (config : Config)
    (hslow : config.ticker.fastForward = false) (hstep : config.ticker.virtualStepMs = 0)
    {step : Step} (hmem : step ∈ (extractSource source).steps)
    (htimed : step.targetQueue = .pendingAsync) (hdelay : 0 < step.delayMs) :
    ¬ (load source config).Finishes := by
  rintro ⟨ticks, hdone⟩
  -- time stands still from the first tick on
  have hstill : let last := (Chronicle.load source config).performAll (List.replicate ticks .tick)
      last.Timely ∧ last.simulation.settings = config.ticker ∧
        last.simulation.extraction = extractSource source ∧ last.simulation.engine.now = 0 := by
    refine Chronicle.performAll_ticks_induction (motive := fun chronicle => chronicle.Timely ∧
      chronicle.simulation.settings = config.ticker ∧
      chronicle.simulation.extraction = extractSource source ∧
      chronicle.simulation.engine.now = 0) ?_ ticks _ ⟨.load source config, rfl, rfl, rfl⟩
    rintro chronicle ⟨htimely, hsettings, hextraction, hnow⟩
    refine ⟨htimely.tick, ?_, ?_, ?_⟩
    · exact chronicle.simulation.settings_tick.trans hsettings
    · exact chronicle.simulation.extraction_tick.trans hextraction
    · have htick := chronicle.simulation.later_le_now_tick.2 (by rw [hsettings, hslow])
      rw [hnow, virtualStepMs, hsettings, hstep] at htick
      exact htick
  obtain ⟨htimely, -, hextraction, hnow⟩ := hstill
  obtain ⟨ledger, first, hbalances⟩ := htimely.balances
  have hend : ((Chronicle.load source config).performAll
      (List.replicate ticks .tick)).simulation.isDone = true := by
    rw [Chronicle.simulation_performAll]
    exact hdone
  obtain ⟨submission, -, hsame, hdue⟩ :=
    hbalances.dueAt_le_of_isDone hend (hextraction.symm ▸ hmem) htimed
  rw [hnow, Submission.dueAt, later, hsame] at hdue
  unfold horizon at hdue
  omega

/-- A script comes to the end just if time goes on or no timer of it has a
delay. -/
theorem finishes_iff_progresses (source : String) (config : Config) :
    (load source config).Finishes ↔ (load source config).Progresses := by
  constructor
  · intro hfinishes
    by_contra hstalled
    unfold Progresses at hstalled
    push Not at hstalled
    obtain ⟨hslow, hstep, step, hmem, htimed, hdelay⟩ := hstalled
    exact not_finishes_of_stalled source config (Bool.eq_false_iff.2 hslow) (Nat.le_zero.1 hstep)
      hmem htimed (Nat.pos_of_ne_zero hdelay) hfinishes
  · intro hprogress
    obtain ⟨ticks, hdone⟩ := Chronicle.exists_isDone (.load source config) hprogress
    rw [Chronicle.simulation_performAll] at hdone
    exact ⟨ticks, hdone⟩

/-- **A configuration lets every script come to the end** just if it
fast-forwards or its ticks, rounded to whole milliseconds, take time.  That the
interval and the speed are positive is not enough. -/
theorem finishes_iff (config : Config) :
    (∀ source, (load source config).Finishes) ↔
      config.ticker.fastForward = true ∨ 0 < config.ticker.virtualStepMs := by
  constructor
  · intro hall
    rcases (finishes_iff_progresses _ config).1 (hall "setTimeout(f, 1)") with
      hforward | htime | hdelays
    · exact .inl hforward
    · exact .inr htime
    · have hdelayed : ∃ step ∈ (extractSource "setTimeout(f, 1)").steps,
          step.targetQueue = .pendingAsync ∧ step.delayMs ≠ 0 := by decide +kernel
      obtain ⟨step, hmem, htimed, hdelay⟩ := hdelayed
      exact absurd (hdelays step hmem htimed) hdelay
  · intro htime source
    refine (finishes_iff_progresses source config).2 ?_
    rcases htime with hforward | htime
    · exact .inl hforward
    · exact .inr (.inl htime)

/-- At a tenth of the speed, ticks of one millisecond are rounded to nothing,
and a timer of one millisecond waits for ever. -/
theorem not_finishes_of_valid :
    let config : Config := { ticker := { intervalMs := 1, speed := 0.1, fastForward := false } }
    config.validate = .ok config ∧ ¬ (load "setTimeout(f, 1)" config).Finishes := by
  intro config
  have hspeed : isValidSpeed 0.1 = true := by decide +kernel
  have hstep : config.ticker.virtualStepMs = 0 := by decide +kernel
  have hdelayed : ∃ step ∈ (extractSource "setTimeout(f, 1)").steps,
      step.targetQueue = .pendingAsync ∧ 0 < step.delayMs := by decide +kernel
  obtain ⟨step, hmem, htimed, hdelay⟩ := hdelayed
  refine ⟨?_, not_finishes_of_stalled _ config rfl hstep hmem htimed hdelay⟩
  rw [Config.validate, if_neg (by decide), if_neg (by decide), if_pos hspeed]

end Simulation

end EventLoop
