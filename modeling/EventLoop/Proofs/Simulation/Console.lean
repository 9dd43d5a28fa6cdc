import EventLoop.Proofs.Simulation.Once

/-!
# What a script prints

The lines on the console depend on the script alone.  A step that prints does
not wait for a timer, so its submission is on the plain line of the ledger, and
that line has the order of the program however the timers elapse in between.
The console has the lines of the plain submissions that have ended; these are
the first ones of the program at any time, and all of them at the end.
-/

namespace EventLoop

/-- What the steps of a program print. -/
def printed (steps : List Step) : List (Option String) :=
  (steps.filter (·.action = .console)).map (·.outputPayload)

theorem TaskKind.ofAction_eq_console_iff {action : Action} :
    TaskKind.ofAction action = .console ↔ action = .console := by
  cases action <;> simp [ofAction]

theorem printed_append (earlier later : List Step) :
    printed (earlier ++ later) = printed earlier ++ printed later := by
  rw [printed, List.filter_append, List.map_append]
  rfl

namespace Simulation

/-- The task of a step prints the output of the step. -/
theorem consoleLine?_ofStep {step : Step} (h : step.WellMade) (id : Nat) :
    (consoleLine? (Task.ofStep id step)).toList.map some = printed [step] := by
  by_cases hconsole : step.action = .console
  · obtain ⟨-, hsome⟩ := h.console hconsole
    obtain ⟨line, hline⟩ := Option.isSome_iff_exists.1 hsome
    have hkind : (Task.ofStep id step).kind = .console :=
      TaskKind.ofAction_eq_console_iff.2 hconsole
    have hpayload : (Task.ofStep id step).payload = some line := by
      simp only [Task.ofStep, Task.resultOf, hline]
    simp [consoleLine?, hkind, hpayload, printed, hconsole, hline]
  · have hkind : (Task.ofStep id step).kind ≠ .console := fun h =>
      hconsole (TaskKind.ofAction_eq_console_iff.1 h)
    simp [consoleLine?, hkind, printed, hconsole]

theorem consoleLines_numbered (steps : List Step) (hsteps : ∀ step ∈ steps, step.WellMade)
    (first : Nat) :
    ((numbered first steps).filterMap consoleLine?).map some = printed steps := by
  induction steps generalizing first with
  | nil => rfl
  | cons step rest ih =>
      have hline := consoleLine?_ofStep (hsteps step List.mem_cons_self) first
      have hrest := ih (fun other hother => hsteps other (List.mem_cons_of_mem _ hother))
        (first + 1)
      have hsplit : printed (step :: rest) = printed [step] ++ printed rest :=
        printed_append [step] rest
      rw [numbered_cons, hsplit, ← hline, ← hrest]
      cases hprint : consoleLine? (Task.ofStep first step) <;> simp [hprint]

end Simulation

namespace Ledger

variable {ledger : Ledger} {submissions : List Submission} {simulation : Simulation}
  {first : Nat}

/-- The lines that submissions print. -/
def lines (submissions : List Submission) : List String :=
  submissions.filterMap fun submission => Simulation.consoleLine? submission.task

namespace Balances

variable (h : ledger.Balances submissions first simulation)
  (hsteps : ∀ step ∈ simulation.extraction.steps, step.WellMade)

include h hsteps

/-- What waits for a timer prints nothing. -/
theorem consoleLine?_timed {submission : Submission} (hmem : submission ∈ submissions)
    (htimed : submission.isTimed = true) :
    Simulation.consoleLine? submission.task = none := by
  obtain ⟨step, hstep, id, htask⟩ := h.exists_step hmem
  have hqueue : step.targetQueue = .pendingAsync := by
    simpa [Submission.isTimed, htask, Task.ofStep] using htimed
  have hkind : submission.task.kind ≠ .console := by
    rw [htask]
    intro hconsole
    have hstack := ((hsteps step hstep).console (TaskKind.ofAction_eq_console_iff.1 hconsole)).1
    rw [hqueue] at hstack
    contradiction
  rw [Simulation.consoleLine?, if_neg hkind]

theorem lines_plain (part : List Submission) (hpart : part ⊆ submissions) :
    lines (part.filter (!·.isTimed)) = lines part := by
  induction part with
  | nil => rfl
  | cons submission rest ih =>
      obtain ⟨hmem, hrest⟩ := List.cons_subset.1 hpart
      have hlines := ih hrest
      by_cases htimed : submission.isTimed = true
      · have hnone := h.consoleLine?_timed hsteps hmem htimed
        simpa [lines, htimed, hnone] using hlines
      · cases hline : Simulation.consoleLine? submission.task <;>
          simpa [lines, htimed, hline] using hlines

/-- The submitted steps print the beginning of what the program prints. -/
theorem lines_submissions :
    (lines submissions).map some ++ printed simulation.upcoming =
      printed simulation.extraction.steps := by
  obtain ⟨done, hprogram, htasks, -⟩ := h.follows.exists_done
  have hdone := Simulation.consoleLines_numbered done
    (fun step hstep => hsteps step (hprogram ▸ List.mem_append_left _ hstep)) first
  rw [← htasks, List.filterMap_map] at hdone
  rw [hprogram, printed_append, ← hdone]
  rfl

/-- The ended submissions come first on the plain line. -/
theorem console_append :
    simulation.console ++
        lines (ledger.current.toList.filter (!·.isTimed) ++ ledger.deferred ++ ledger.stacked) =
      lines submissions := by
  have hordered := h.accounts.ordered
  have hended : ledger.ended ⊆ submissions := fun submission hmem =>
    hordered.mem_of_started (List.mem_append_left _ hmem)
  have hplain := hordered.plainLine_eq
  -- what has ended comes before the running task and all that has not been started
  rw [plainLine, started, List.filter_append] at hplain
  calc simulation.console ++
        lines (ledger.current.toList.filter (!·.isTimed) ++ ledger.deferred ++ ledger.stacked)
      = lines (ledger.ended.filter (!·.isTimed)) ++
          lines (ledger.current.toList.filter (!·.isTimed) ++ ledger.deferred ++
            ledger.stacked) := by
        rw [h.lines_plain hsteps _ hended, h.console_eq]
        rfl
    _ = lines (submissions.filter (!·.isTimed)) := by
        rw [← hplain]
        simp only [lines, List.filterMap_append, List.append_assoc]
    _ = lines submissions := h.lines_plain hsteps _ (List.Subset.refl _)

theorem console_prefix :
    simulation.console.map some <+: printed simulation.extraction.steps := by
  rw [← h.lines_submissions hsteps, ← h.console_append hsteps, List.map_append, List.append_assoc]
  exact List.prefix_append _ _

theorem console_of_isDone (hdone : simulation.isDone = true) :
    simulation.console.map some = printed simulation.extraction.steps := by
  obtain ⟨hupcoming, hremaining⟩ := h.isDone_iff_remaining.1 hdone
  obtain ⟨hcurrent, hrest⟩ := List.append_eq_nil_iff.1 hremaining
  obtain ⟨hplain, -⟩ := List.append_eq_nil_iff.1 hrest
  obtain ⟨hdeferred, hstacked⟩ := List.append_eq_nil_iff.1 hplain
  have hconsole := h.console_append hsteps
  rw [hcurrent, hdeferred, hstacked] at hconsole
  have hlines : simulation.console = lines submissions := by simpa [lines] using hconsole
  have hprogram := h.lines_submissions hsteps
  rw [hupcoming] at hprogram
  rw [hlines, ← hprogram]
  simp [printed]

end Balances

end Ledger

namespace Chronicle

theorem extraction_performAll (source : String) (config : Config)
    (commands : List Simulation.Command) :
    ((load source config).performAll commands).simulation.extraction = extractSource source := by
  refine performAll_induction
    (motive := fun chronicle => chronicle.simulation.extraction = extractSource source)
    rfl ?_ ?_ (fun _ h => h) commands
  · intro chronicle h
    exact chronicle.simulation.extraction_tick.trans h
  · intro chronicle speed h
    obtain ⟨_, -, hframe⟩ := chronicle.simulation.setSpeed_frame speed
    rw [hframe]
    exact h

/-- What the ticks report as printed is on the console. -/
theorem reports_console (source : String) (config : Config)
    (commands : List Simulation.Command) :
    ((load source config).performAll commands).reports.filterMap (·.console) =
      ((load source config).performAll commands).simulation.console := by
  refine performAll_induction
    (motive := fun chronicle =>
      chronicle.reports.filterMap (·.console) = chronicle.simulation.console)
    rfl ?_ ?_ (fun _ _ => rfl) commands
  · intro chronicle h
    obtain ⟨_, _, hframe⟩ := chronicle.simulation.tick_frame
    have hconsole : chronicle.simulation.tick.2.console =
        chronicle.simulation.console ++ chronicle.simulation.tick.1.console.toList := by rw [hframe]
    rw [tick, List.filterMap_append, h, hconsole]
    cases hline : chronicle.simulation.tick.1.console <;> simp [hline]
  · intro chronicle speed h
    obtain ⟨_, -, hframe⟩ := chronicle.simulation.setSpeed_frame speed
    rw [hframe]
    exact h

/-- **The console depends on the script alone.**  At any time it has the first
lines that the steps of the script print, in their order, and these are the
lines that the ticks reported.  When a run is completed it has all of them, so
any two completed runs have printed the same. -/
theorem console_of_completed (source : String) (config other : Config)
    (commands others : List Simulation.Command) :
    let chronicle := (load source config).performAll commands
    let report := chronicle.simulation.report
    let otherReport := ((load source other).performAll others).simulation.report
    report.console.map some <+: printed (extractSource source).steps ∧
      chronicle.reports.filterMap (·.console) = report.console ∧
      (report.completed = true →
        report.console.map some = printed (extractSource source).steps) ∧
      (report.completed = true → otherReport.completed = true →
        report.console = otherReport.console) := by
  intro chronicle report otherReport
  have hmade : ∀ (config : Config) (commands : List Simulation.Command),
      ∀ step ∈ ((load source config).performAll commands).simulation.extraction.steps,
        step.WellMade := by
    intro config commands
    rw [extraction_performAll]
    exact wellMade_extractSource source
  have hall : ∀ (config : Config) (commands : List Simulation.Command),
      ((load source config).performAll commands).simulation.isDone = true →
        ((load source config).performAll commands).simulation.console.map some =
          printed (extractSource source).steps := by
    intro config commands hdone
    obtain ⟨ledger, h⟩ := exists_ledger_performAll source config commands
    rw [h.console_of_isDone (hmade config commands) hdone, extraction_performAll]
  refine ⟨?_, reports_console source config commands, hall config commands, ?_⟩
  · obtain ⟨ledger, h⟩ := exists_ledger_performAll source config commands
    have hprefix := h.console_prefix (hmade config commands)
    rw [extraction_performAll] at hprefix
    exact hprefix
  · intro hdone hother
    have hsame := (hall config commands hdone).trans (hall other others hother).symm
    exact List.map_injective_iff.2 (fun _ _ heq => Option.some.inj heq) hsame

/-- A run that is made in one go prints what one does whose speed is changed on
the way. -/
theorem console_of_completed_timer :
    let source := "console.log(1); setTimeout(f, 5); console.log(2)"
    let chronicle := (load source {}).performAll [.run]
    let other := (load source {}).performAll [.tick, .setSpeed 0.5, .tick, .run]
    chronicle.simulation.report.completed = true ∧
      other.simulation.report.completed = true ∧
      chronicle.simulation.report.console = other.simulation.report.console := by
  have hcompleted : ((load "console.log(1); setTimeout(f, 5); console.log(2)" {}).performAll
      [.run]).simulation.report.completed = true := by decide +kernel
  have hother : ((load "console.log(1); setTimeout(f, 5); console.log(2)" {}).performAll
      [.tick, .setSpeed 0.5, .tick, .run]).simulation.report.completed = true := by
    decide +kernel
  obtain ⟨-, -, -, hsame⟩ := console_of_completed
    "console.log(1); setTimeout(f, 5); console.log(2)" {} {} [.run]
    [.tick, .setSpeed 0.5, .tick, .run]
  exact ⟨hcompleted, hother, hsame hcompleted hother⟩

end Chronicle

end EventLoop
