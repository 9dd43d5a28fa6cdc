import EventLoop.Proofs.Simulation.Once

/-!
# How many ticks are left

A tick starts at most one task, and the last task needs one more tick to be
finished.  So a simulation that is not done needs at least one tick more than
it has steps to start (`ticksLeft`).  A tick that fast-forwards never wastes
its turn: if it starts nothing then nothing was left to start.  With
fast-forwarding the bound is therefore met exactly (`runFor_fastForward`), and
without it no run can be shorter (`ticksLeft_le_of_runFor`).
-/

namespace EventLoop

namespace Simulation

/-- The ticks that are left if each of them starts a task. -/
def ticksLeft (simulation : Simulation) : Nat :=
  if simulation.isDone then 0
  else simulation.extraction.steps.length - simulation.executed.length + 1

theorem ticksLeft_of_isDone {simulation : Simulation} (h : simulation.isDone = true) :
    simulation.ticksLeft = 0 :=
  if_pos h

theorem ticksLeft_of_not_isDone {simulation : Simulation} (h : ¬ simulation.isDone = true) :
    simulation.ticksLeft =
      simulation.extraction.steps.length - simulation.executed.length + 1 :=
  if_neg h

theorem ticksLeft_le (simulation : Simulation) :
    simulation.ticksLeft ≤
      simulation.extraction.steps.length - simulation.executed.length + 1 := by
  unfold ticksLeft
  split <;> omega

/-- A ledger balances the simulation. -/
def Balanced (simulation : Simulation) : Prop :=
  ∃ (ledger : Ledger) (submissions : List Submission) (first : Nat),
    ledger.Balances submissions first simulation

theorem Balanced.load (source : String) (config : Config) : (load source config).Balanced :=
  ⟨{}, [], 1, .load source config⟩

theorem Balanced.tick {simulation : Simulation} (h : simulation.Balanced) :
    simulation.tick.2.Balanced := by
  obtain ⟨ledger, submissions, first, h⟩ := h
  exact ⟨_, _, _, h.tick⟩

end Simulation

namespace Ledger.Balances

variable {ledger : Ledger} {submissions : List Submission} {simulation : Simulation}
  {first : Nat}

/-- A step is executed, submitted but not yet started, or still to be
submitted. -/
theorem executed_length (h : ledger.Balances submissions first simulation) :
    simulation.executed.length +
        (ledger.deferred ++ ledger.stacked ++ (ledger.called ++ ledger.waiting)).length +
        simulation.upcoming.length = simulation.extraction.steps.length := by
  have hexecuted := h.executed.length_eq
  have hperm := h.accounts.ordered.perm.length_eq
  obtain ⟨done, hsteps, -, hlength⟩ := h.follows.exists_done
  rw [hsteps]
  simp only [List.length_append] at hperm ⊢
  omega

theorem executed_length_of_isDone (h : ledger.Balances submissions first simulation)
    (hdone : simulation.isDone = true) :
    simulation.executed.length = simulation.extraction.steps.length := by
  obtain ⟨hupcoming, hremaining⟩ := h.isDone_iff_remaining.1 hdone
  have hlength := h.executed_length
  rw [hupcoming, (List.append_eq_nil_iff.1 hremaining).2] at hlength
  exact hlength

/-- A tick that starts nothing has found nothing that could be started. -/
theorem next?_of_not_started (h : ledger.Balances submissions first simulation)
    (hstarted : simulation.tick.1.started = none) :
    simulation.beforeStart.engine.next? = none ∧
      (ledger.beforeStart simulation.tickSubmissions
        simulation.beforeStart.engine.now).next? = none := by
  rw [Simulation.tick_eq] at hstarted
  have hready := (h.beforeStart.startNext_eq_none_iff (ledger.current_beforeStart _ _)).1 hstarted
  have hnext := hready.symm.trans h.beforeStart.accounts.next?_eq
  exact ⟨hready, Option.map_eq_none_iff.1 hnext.symm⟩

/-- A tick that starts nothing has come to the end, unless tasks are still
waiting for their timers. -/
theorem isDone_tick_iff_waiting (h : ledger.Balances submissions first simulation)
    (hstarted : simulation.tick.1.started = none) :
    simulation.tick.2.isDone = true ↔
      (ledger.beforeStart simulation.tickSubmissions
        simulation.beforeStart.engine.now).waiting = [] := by
  obtain ⟨hready, hnone⟩ := h.next?_of_not_started hstarted
  obtain ⟨hdeferred, hcalled, hstacked⟩ := next?_eq_none_iff.1 hnone
  rw [Simulation.tick_snd, Simulation.startNext_of_none _ hready,
    h.beforeStart.isDone_iff_remaining, remaining, ledger.current_beforeStart, hdeferred, hstacked,
    hcalled]
  constructor
  · rintro ⟨-, hremaining⟩
    exact hremaining
  · intro hwaiting
    exact ⟨h.upcoming_beforeStart _ hstacked, hwaiting⟩

/-- Without a start, a tick that fast-forwards has come to the end. -/
theorem isDone_tick_of_not_started (h : ledger.Balances submissions first simulation)
    (hforward : simulation.settings.fastForward = true)
    (hstarted : simulation.tick.1.started = none) : simulation.tick.2.isDone = true := by
  obtain ⟨-, hnone⟩ := h.next?_of_not_started hstarted
  exact (h.isDone_tick_iff_waiting hstarted).2 (h.waiting_beforeStart hforward hnone)

theorem started_of_isDone_tick (hdone : simulation.tick.2.isDone = true) :
    simulation.tick.1.started = none := by
  have hrunning : simulation.tick.2.running = none := by
    simp only [Simulation.isDone, Bool.and_eq_true, Option.isNone_iff_eq_none] at hdone
    exact hdone.1.1
  rw [Simulation.running_tick] at hrunning
  exact Option.map_eq_none_iff.1 hrunning

/-- A tick that comes to the end starts nothing, as all has been started. -/
theorem executed_length_of_isDone_tick (h : ledger.Balances submissions first simulation)
    (hdone : simulation.tick.2.isDone = true) :
    simulation.executed.length = simulation.extraction.steps.length := by
  have hall := h.tick.executed_length_of_isDone hdone
  rw [simulation.executed_tick, simulation.extraction_tick, started_of_isDone_tick hdone,
    Option.toList_none, List.append_nil] at hall
  exact hall

/-- A tick starts one task at most. -/
theorem ticksLeft_le_tick (h : ledger.Balances submissions first simulation) :
    simulation.ticksLeft ≤ simulation.tick.2.ticksLeft + 1 := by
  have hle := simulation.ticksLeft_le
  by_cases hdone : simulation.tick.2.isDone = true
  · have hall := h.executed_length_of_isDone_tick hdone
    rw [Simulation.ticksLeft_of_isDone hdone]
    omega
  · have hone : simulation.tick.1.started.toList.length ≤ 1 := by
      cases simulation.tick.1.started <;> simp
    rw [Simulation.ticksLeft_of_not_isDone hdone, simulation.executed_tick,
      simulation.extraction_tick, List.length_append]
    omega

/-- A tick that starts a task is one of those that were left. -/
theorem ticksLeft_tick_of_started (h : ledger.Balances submissions first simulation)
    {executed : ExecutedTask} (hstarted : simulation.tick.1.started = some executed) :
    simulation.tick.2.ticksLeft + 1 = simulation.ticksLeft := by
  have hlength := h.tick.executed_length
  rw [simulation.executed_tick, simulation.extraction_tick, hstarted, List.length_append]
    at hlength
  have hsome : (Option.toList (some executed)).length = 1 := rfl
  have hafter : ¬ simulation.tick.2.isDone = true := fun hdone => by
    rw [started_of_isDone_tick hdone] at hstarted
    contradiction
  have hbefore : ¬ simulation.isDone = true := fun hdone => by
    have hall := h.executed_length_of_isDone hdone
    omega
  rw [Simulation.ticksLeft_of_not_isDone hafter, Simulation.ticksLeft_of_not_isDone hbefore,
    simulation.executed_tick, simulation.extraction_tick, hstarted, List.length_append]
  omega

/-- A tick that fast-forwards starts a task as long as there is one. -/
theorem ticksLeft_tick (h : ledger.Balances submissions first simulation)
    (hforward : simulation.settings.fastForward = true) :
    simulation.tick.2.ticksLeft = simulation.ticksLeft - 1 := by
  have hle := simulation.ticksLeft_le
  cases hstarted : simulation.tick.1.started with
  | none =>
      -- at most the tick that finishes the last task was left
      have hdone := h.isDone_tick_of_not_started hforward hstarted
      have hall := h.executed_length_of_isDone_tick hdone
      rw [Simulation.ticksLeft_of_isDone hdone]
      omega
  | some executed =>
      have hone := h.ticksLeft_tick_of_started hstarted
      omega

end Ledger.Balances

namespace Simulation

/-! ## Runs -/

theorem ticks_runFor_le (ticks : Nat) :
    ∀ simulation : Simulation, (runFor ticks simulation).ticks ≤ simulation.ticks + ticks := by
  induction ticks with
  | zero => exact fun simulation => Nat.le_refl _
  | succ ticks ih =>
      intro simulation
      rw [runFor]
      split
      · omega
      · have hrest := ih simulation.tick.2
        rw [ticks_tick] at hrest
        omega

/-- A run that comes to the end has at least the ticks that were left. -/
theorem ticksLeft_le_of_runFor (ticks : Nat) :
    ∀ simulation : Simulation, simulation.Balanced → (runFor ticks simulation).isDone = true →
      simulation.ticks + simulation.ticksLeft ≤ (runFor ticks simulation).ticks := by
  induction ticks with
  | zero =>
      intro simulation _ hdone
      rw [runFor] at hdone ⊢
      rw [ticksLeft_of_isDone hdone]
      exact Nat.le_refl _
  | succ ticks ih =>
      intro simulation hbalanced hdone
      rw [runFor] at hdone ⊢
      split
      · rename_i hnow
        rw [ticksLeft_of_isDone hnow]
        exact Nat.le_refl _
      · rename_i hnow
        rw [if_neg hnow] at hdone
        have hrest := ih simulation.tick.2 hbalanced.tick hdone
        obtain ⟨ledger, submissions, first, h⟩ := hbalanced
        calc simulation.ticks + simulation.ticksLeft
            ≤ simulation.ticks + (simulation.tick.2.ticksLeft + 1) :=
              Nat.add_le_add_left h.ticksLeft_le_tick _
          _ = simulation.tick.2.ticks + simulation.tick.2.ticksLeft := by
              rw [ticks_tick]
              omega
          _ ≤ (runFor ticks simulation.tick.2).ticks := hrest

/-- With fast-forwarding a run comes to the end in just the ticks that were
left. -/
theorem runFor_fastForward (ticks : Nat) :
    ∀ simulation : Simulation, simulation.Balanced → simulation.settings.fastForward = true →
      simulation.ticksLeft ≤ ticks →
      (runFor ticks simulation).isDone = true ∧
        (runFor ticks simulation).ticks = simulation.ticks + simulation.ticksLeft := by
  induction ticks with
  | zero =>
      intro simulation _ _ hle
      have hdone : simulation.isDone = true := by
        by_contra hnot
        rw [ticksLeft_of_not_isDone hnot] at hle
        omega
      rw [ticksLeft_of_isDone hdone]
      exact ⟨hdone, rfl⟩
  | succ ticks ih =>
      intro simulation hbalanced hforward hle
      rw [runFor]
      split
      · rename_i hdone
        rw [ticksLeft_of_isDone hdone]
        exact ⟨hdone, rfl⟩
      · rename_i hnot
        have hnext := hbalanced.tick
        obtain ⟨ledger, submissions, first, h⟩ := hbalanced
        have hleft := h.ticksLeft_tick hforward
        obtain ⟨hdone, hticks⟩ := ih simulation.tick.2 hnext
          (by rw [settings_tick, hforward]) (by omega)
        have hpositive : 0 < simulation.ticksLeft := by
          rw [ticksLeft_of_not_isDone hnot]
          exact Nat.succ_pos _
        refine ⟨hdone, ?_⟩
        calc (runFor ticks simulation.tick.2).ticks
            = simulation.tick.2.ticks + simulation.tick.2.ticksLeft := hticks
          _ = simulation.ticks + 1 + (simulation.ticksLeft - 1) := by rw [ticks_tick, hleft]
          _ = simulation.ticks + simulation.ticksLeft := by omega

end Simulation

end EventLoop
