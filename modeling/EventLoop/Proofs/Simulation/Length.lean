import EventLoop.Proofs.Simulation.Countdown

/-!
# The length of a run that fast-forwards

With fast-forwarding no tick is wasted: a tick starts a task as long as there
is a step to start, and the first tick that starts none finds everything
finished.  A script of `n` steps therefore takes `n + 1` ticks, whatever a tick
and the delays are worth in virtual time, and a run that is cut off by its
limit has started one task in each of its ticks.
-/

namespace EventLoop

namespace Ledger.Balances

variable {ledger : Ledger} {submissions : List Submission} {simulation : Simulation}
  {first : Nat}

/-- A tick that fast-forwards executes one of the steps that are left. -/
theorem executed_length_tick (h : ledger.Balances submissions first simulation)
    (hforward : simulation.settings.fastForward = true) :
    simulation.tick.2.executed.length =
      min (simulation.executed.length + 1) simulation.extraction.steps.length := by
  have hbefore := h.executed_length
  have hafter := h.tick.executed_length
  rw [simulation.executed_tick, simulation.extraction_tick, List.length_append] at hafter
  rw [simulation.executed_tick, List.length_append]
  cases hstarted : simulation.tick.1.started with
  | none =>
      have hall := h.executed_length_of_isDone_tick (h.isDone_tick_of_not_started hforward hstarted)
      simp only [Option.toList_none, List.length_nil]
      omega
  | some executed =>
      rw [hstarted] at hafter
      simp only [Option.toList_some, List.length_singleton] at hafter ⊢
      omega

end Ledger.Balances

namespace Simulation

theorem isDone_iff_ticksLeft (simulation : Simulation) :
    simulation.isDone = true ↔ simulation.ticksLeft = 0 := by
  constructor
  · exact ticksLeft_of_isDone
  · intro hleft
    by_contra hnot
    rw [ticksLeft_of_not_isDone hnot] at hleft
    omega

/-- Each tick of a run that fast-forwards is one of those that were left, and
executes one of the steps that were. -/
theorem length_runFor (ticks : Nat) :
    ∀ simulation : Simulation, simulation.Balanced → simulation.settings.fastForward = true →
      (runFor ticks simulation).ticks = simulation.ticks + min simulation.ticksLeft ticks ∧
        (runFor ticks simulation).ticksLeft = simulation.ticksLeft - ticks ∧
        (runFor ticks simulation).executed.length =
          min (simulation.executed.length + ticks) simulation.extraction.steps.length := by
  induction ticks with
  | zero =>
      intro simulation hbalanced _
      obtain ⟨ledger, submissions, first, h⟩ := hbalanced
      have hlength := h.executed_length
      rw [runFor]
      refine ⟨by omega, by omega, by omega⟩
  | succ ticks ih =>
      intro simulation hbalanced hforward
      have hnext := hbalanced.tick
      obtain ⟨ledger, submissions, first, h⟩ := hbalanced
      rw [runFor]
      by_cases hdone : simulation.isDone = true
      · have hleft := ticksLeft_of_isDone hdone
        have hall := h.executed_length_of_isDone hdone
        rw [if_pos hdone]
        refine ⟨by omega, by omega, by omega⟩
      · have hleft := h.ticksLeft_tick hforward
        have hexecuted := h.executed_length_tick hforward
        have hpositive : 0 < simulation.ticksLeft := by
          rw [ticksLeft_of_not_isDone hdone]
          exact Nat.succ_pos _
        obtain ⟨hticks, hrest, hlength⟩ := ih simulation.tick.2 hnext
          (by rw [settings_tick, hforward])
        rw [ticks_tick] at hticks
        rw [extraction_tick] at hlength
        rw [if_neg hdone]
        refine ⟨by omega, by omega, by omega⟩

theorem ticksLeft_load (source : String) (config : Config) :
    (load source config).ticksLeft =
      if (extractSource source).steps = [] then 0 else (extractSource source).steps.length + 1 := by
  have hdone : (load source config).isDone = (extractSource source).steps.isEmpty := by
    simp [load, ofExtraction, isDone, Engine.withTraceCapacity, Engine.isIdle, Queues.isEmpty,
      Queues.size, Queues.empty]
  unfold ticksLeft
  rw [hdone]
  simp only [List.isEmpty_iff]
  rfl

end Simulation

namespace Chronicle

/-- Of a run that fast-forwards only the last tick may have started no task. -/
theorem started_runFor (ticks : Nat) :
    ∀ chronicle : Chronicle, chronicle.simulation.Balanced →
      chronicle.simulation.settings.fastForward = true →
      (∀ report ∈ chronicle.reports, report.started.isSome = true) →
      ∀ report ∈ (runFor ticks chronicle).reports.dropLast, report.started.isSome = true := by
  induction ticks with
  | zero =>
      intro chronicle _ _ hall report hmem
      exact hall report (List.dropLast_subset _ hmem)
  | succ ticks ih =>
      intro chronicle hbalanced hforward hall
      have hnext := hbalanced.tick
      obtain ⟨ledger, submissions, first, h⟩ := hbalanced
      rw [runFor]
      split
      · intro report hmem
        exact hall report (List.dropLast_subset _ hmem)
      · cases hstarted : chronicle.simulation.tick.1.started with
        | some executed =>
            refine ih chronicle.tick hnext ?_ ?_
            · rw [tick, Simulation.settings_tick]
              exact hforward
            · intro report hmem
              rcases List.mem_append.1 hmem with hmem | hmem
              · exact hall report hmem
              · rw [List.mem_singleton.1 hmem, hstarted]
                rfl
        | none =>
            -- the run ends here, and this is its last tick
            have hdone : chronicle.tick.simulation.isDone = true :=
              h.isDone_tick_of_not_started hforward hstarted
            have hend : runFor ticks chronicle.tick = chronicle.tick := by
              cases ticks with
              | zero => rfl
              | succ ticks => rw [runFor, if_pos hdone]
            rw [hend, tick, List.dropLast_concat]
            exact hall

/-- There is a report of each tick. -/
theorem reports_length_run (source : String) (config : Config) :
    (load source config).run.reports.length = (load source config).run.simulation.ticks := by
  refine runFor_induction (motive := fun chronicle =>
    chronicle.reports.length = chronicle.simulation.ticks) ?_ _ _ rfl
  intro chronicle h
  rw [tick, List.length_append, h, Simulation.ticks_tick]
  rfl

end Chronicle

namespace Simulation

/-- **A script of `n` steps takes `n + 1` ticks with fast-forwarding**, each of
which but the last starts a task; or as many ticks as the limit allows, if those
are fewer.  Only a script without steps takes no tick at all. -/
theorem run_length (source : String) (config : Config)
    (hforward : config.ticker.fastForward = true) :
    let steps := (extractSource source).steps.length
    let limit := config.ticker.maxTicks
    let report := (load source config).run.report
    let ticks := (Chronicle.load source config).run.reports
    ((∃ error, Script.parse source = .error error) → steps = 1) ∧
      (steps = 0 → report.ticks = 0 ∧ report.completed = true) ∧
      (steps ≠ 0 →
        report.ticks = min (steps + 1) limit ∧
          report.executed.length = min steps limit ∧
          (report.completed = true ↔ steps + 1 ≤ limit)) ∧
      ticks.length = report.ticks ∧
      ∀ tick ∈ ticks.dropLast, tick.started.isSome = true := by
  intro steps limit report ticks
  have hbalanced := Balanced.load source config
  obtain ⟨hticks, hleft, hexecuted⟩ := length_runFor limit (load source config) hbalanced hforward
  have hdone := isDone_iff_ticksLeft (runFor limit (load source config))
  have hload := ticksLeft_load source config
  have hrun : (Chronicle.load source config).run.simulation = (load source config).run :=
    Chronicle.simulation_runFor _ _
  refine ⟨?_, ?_, ?_, ?_, ?_⟩
  · rintro ⟨error, hparse⟩
    simp only [steps, extractSource, hparse, List.length_singleton]
  · intro hnone
    rw [if_pos (List.eq_nil_of_length_eq_zero hnone)] at hload
    rw [hload] at hticks hleft
    exact ⟨hticks.trans (by rw [Nat.zero_min]; rfl), hdone.2 (by rw [hleft, Nat.zero_sub])⟩
  · intro hsome
    have hne : (extractSource source).steps ≠ [] := fun hnil => hsome (by simp [steps, hnil])
    rw [if_neg hne] at hload
    rw [hload] at hticks hleft
    refine ⟨hticks.trans (Nat.zero_add _), ?_, hdone.trans ?_⟩
    · calc report.executed.length
          = min (0 + limit) steps := hexecuted
        _ = min steps limit := by omega
    · rw [hleft]
      omega
  · calc ticks.length
        = (Chronicle.load source config).run.simulation.ticks :=
          Chronicle.reports_length_run source config
      _ = report.ticks := by rw [hrun]; rfl
  · exact Chronicle.started_runFor _ (Chronicle.load source config) hbalanced hforward
      (by simp [Chronicle.load])

/-- A script of two steps, in which a timer is far off and ticks take no time,
needs three ticks. -/
theorem run_length_timer :
    let config : Config := { ticker := { intervalMs := 0, speed := 0, maxTicks := 3 } }
    let report := (load "setTimeout(f, 5000); console.log(1)" config).run.report
    report.ticks = 3 ∧ report.executed.length = 2 ∧ report.completed = true := by
  intro config report
  have hsteps : (extractSource "setTimeout(f, 5000); console.log(1)").steps.length = 2 := by
    decide +kernel
  obtain ⟨-, -, hlength, -⟩ := run_length "setTimeout(f, 5000); console.log(1)" config rfl
  rw [hsteps] at hlength
  obtain ⟨hticks, hexecuted, hcompleted⟩ := hlength (by decide)
  exact ⟨hticks, hexecuted, hcompleted.2 (by decide)⟩

end Simulation

end EventLoop
