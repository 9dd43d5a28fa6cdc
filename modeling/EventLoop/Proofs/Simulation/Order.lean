import EventLoop.Proofs.Simulation.Balance

/-!
# The order of the executed tasks

The executed tasks are two sequences interleaved.  The tasks that wait for no
timer keep the order of the program: what was executed of them is a beginning
of what the program has of them.  The tasks that wait for timers come in the
order of their due times, and of their ids where these are equal, however late
a short timer was set and however far time jumped.  A task never starts before
it is due, and the times of the starts never go back.

Both sequences are read off the lines of the ledger, which has the started
submissions at the front of each.
-/

namespace EventLoop

namespace Ledger

variable {ledger : Ledger} {submissions : List Submission} {submission : Submission}
  {simulation : Simulation} {first now : Nat}

/-- A ledger has every submission once. -/
theorem Ordered.perm (h : ledger.Ordered submissions now) :
    (ledger.started ++
      (ledger.deferred ++ ledger.stacked ++ (ledger.called ++ ledger.waiting))).Perm
        submissions := by
  have hstarted := List.filter_append_perm (·.isTimed) ledger.started
  have hlines : (ledger.started ++ (ledger.deferred ++ ledger.stacked ++
      (ledger.called ++ ledger.waiting))).Perm (ledger.timedLine ++ ledger.plainLine) := by
    refine (hstarted.symm.append_right _).trans (List.perm_iff_count.2 fun other => ?_)
    simp only [timedLine, plainLine, List.count_append]
    omega
  calc List.Perm _ (ledger.timedLine ++ ledger.plainLine) := hlines
    List.Perm _ (submissions.filter (·.isTimed) ++ submissions.filter (!·.isTimed)) := by
        rw [h.plainLine_eq]
        exact h.timedLine_perm.append_right _
    List.Perm _ submissions := List.filter_append_perm (·.isTimed) submissions

theorem Ordered.mem_of_started (h : ledger.Ordered submissions now)
    (hmem : submission ∈ ledger.started) : submission ∈ submissions :=
  h.perm.mem_iff.1 (List.mem_append_left _ hmem)

namespace Balances

/-- What the start of a task tells of it is known from its submission. -/
theorem executed_map {α : Type} (h : ledger.Balances submissions first simulation)
    {told : ExecutedTask → α} {known : Submission → α}
    (hsame : ∀ submission executed, submission.StartedAs executed →
      told executed = known submission) :
    simulation.executed.map told = ledger.started.map known := by
  have hstarted := h.executed
  revert hstarted
  generalize ledger.started = started
  generalize simulation.executed = executed
  intro hstarted
  induction hstarted with
  | nil => rfl
  | cons hfirst _ ih => rw [List.map_cons, List.map_cons, ih, hsame _ _ hfirst]

theorem executed_ids (h : ledger.Balances submissions first simulation) :
    simulation.executed.map (·.id) = ledger.started.map (·.task.id) := by
  refine h.executed_map fun submission executed hstarted => ?_
  rw [hstarted.executed_eq]
  exact submission.ready_id

theorem submissions_prefix (h : ledger.Balances submissions first simulation) :
    submissions.map (·.task) <+: Simulation.numbered first simulation.extraction.steps := by
  obtain ⟨done, hsteps, htasks⟩ := h.follows.program_eq
  rw [htasks, hsteps, Simulation.numbered_append]
  exact List.prefix_append _ _

/-- A submission has the task of a step. -/
theorem exists_step (h : ledger.Balances submissions first simulation) {submission : Submission}
    (hmem : submission ∈ submissions) :
    ∃ step ∈ simulation.extraction.steps, ∃ id, submission.task = Task.ofStep id step := by
  have htask := h.submissions_prefix.subset (List.mem_map_of_mem hmem)
  obtain ⟨index, hindex, heq⟩ := Simulation.mem_numbered.1 htask
  exact ⟨_, List.getElem_mem hindex, _, heq.symm⟩

end Balances

end Ledger

namespace Chronicle

variable {chronicle : Chronicle} {ledger : Ledger}

/-- The submission whose task has an id. -/
def submission? (chronicle : Chronicle) (id : Nat) : Option Submission :=
  chronicle.submissions.find? (·.task.id = id)

/-- The submissions whose tasks were executed, in the order of the starts. -/
def started (chronicle : Chronicle) : List Submission :=
  chronicle.simulation.executed.filterMap fun executed => chronicle.submission? executed.id

theorem submission?_eq (hplaced : chronicle.simulation.engine.Placed
    (chronicle.submissions.map (·.task.id))) {submission : Submission}
    (hmem : submission ∈ chronicle.submissions) :
    chronicle.submission? submission.task.id = some submission := by
  have hnodup : (chronicle.submissions.map (·.task.id)).Nodup :=
    hplaced.increasing.imp Nat.ne_of_lt
  cases hfind : chronicle.submission? submission.task.id with
  | none => simpa using List.find?_eq_none.1 hfind submission hmem
  | some other =>
      have hid : other.task.id = submission.task.id := by simpa using List.find?_some hfind
      rw [List.inj_on_of_nodup_map hnodup (List.mem_of_find?_eq_some hfind) hmem hid]

/-- The executed tasks are those of the submissions that the ledger has
started. -/
theorem started_eq
    (h : ledger.Balances chronicle.submissions chronicle.firstId chronicle.simulation) :
    chronicle.started = ledger.started := by
  have hids : chronicle.started =
      (chronicle.simulation.executed.map (·.id)).filterMap chronicle.submission? := by
    rw [List.filterMap_map]
    rfl
  rw [hids, h.executed_ids, List.filterMap_map]
  refine (List.filterMap_congr fun submission hmem => ?_).trans List.filterMap_some
  exact submission?_eq h.accounts.placed (h.accounts.ordered.mem_of_started hmem)

/-- What the order of the executed tasks is. -/
structure InOrder (chronicle : Chronicle) : Prop where
  /-- What was submitted is a beginning of the program. -/
  submissions_prefix : chronicle.submissions.map (·.task) <+: chronicle.program
  /-- Each executed task is the one of a submission, and was not started before
  its timer was due. -/
  started_as : List.Forall₂ Submission.StartedAs chronicle.started chronicle.simulation.executed
  /-- The tasks that wait for no timer are executed as the program has them. -/
  plain_prefix : (chronicle.started.filter (!·.isTimed)).map (·.task) <+:
    chronicle.program.filter (·.queue ≠ .pendingAsync)
  /-- The others are executed in the order of their due times and ids. -/
  timed_sorted : (chronicle.started.filter (·.isTimed)).Pairwise Submission.Earlier
  startedAt_sorted :
    chronicle.simulation.executed.Pairwise (·.startedAtMs ≤ ·.startedAtMs)

theorem inOrder_of_balances
    (h : ledger.Balances chronicle.submissions chronicle.firstId chronicle.simulation) :
    chronicle.InOrder := by
  have hstarted := started_eq h
  have hordered := h.accounts.ordered
  refine ⟨h.submissions_prefix, hstarted ▸ h.executed, ?_, ?_, h.startedAt_sorted⟩
  · have hplain : (ledger.started.filter (!·.isTimed)) <+:
        chronicle.submissions.filter (!·.isTimed) := by
      rw [← hordered.plainLine_eq, Ledger.plainLine, List.append_assoc]
      exact List.prefix_append _ _
    have hprogram := h.submissions_prefix.filter (·.queue ≠ .pendingAsync)
    rw [List.filter_map] at hprogram
    have hsame : chronicle.submissions.filter ((fun task => decide (task.queue ≠ .pendingAsync)) ∘
        fun submission => submission.task) = chronicle.submissions.filter (!·.isTimed) := by
      refine List.filter_congr fun submission _ => ?_
      simp [Submission.isTimed]
    rw [hsame] at hprogram
    rw [hstarted]
    exact (hplain.map _).trans hprogram
  · have htimed := hordered.timedLine_sorted
    rw [Ledger.timedLine, List.append_assoc] at htimed
    rw [hstarted]
    exact (List.pairwise_append.1 htimed).1

/-- **The executed tasks are in order**, whatever the script, the configuration
and the commands since the script was loaded. -/
theorem inOrder_performAll (source : String) (config : Config)
    (commands : List Simulation.Command) :
    ((load source config).performAll commands).InOrder := by
  obtain ⟨ledger, h⟩ := exists_ledger_performAll source config commands
  exact inOrder_of_balances h

end Chronicle

end EventLoop
