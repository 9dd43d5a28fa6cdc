import EventLoop.Proofs.Engine.Schedule
import EventLoop.Proofs.Simulation.Chronicle

/-!
# Ledgers

A `Ledger` is what a simulation comes down to when only the order of its tasks
matters.  It knows the submissions that are stacked, deferred, called, waiting
for their timers, running and ended; a tick finishes the current submission,
enters new ones, releases the waiting ones that are due, and starts the next.

Two lines run through a ledger.  The *plain line* has the submissions that do
not wait for a timer, from the first that ended to the one on the stack; it is
always the list of all such submissions in the order of the program.  The
*timed line* has those that do, from the first that ended to the last that
waits; it is always in the order in which the timers are due.  Nothing but a
submission changes either line: a release and a start only move the borders
between their parts.
-/

namespace EventLoop

/-- The order in which tasks that wait for timers become ready. -/
def Submission.Earlier (a b : Submission) : Prop :=
  a.dueAt < b.dueAt ∨ a.dueAt = b.dueAt ∧ a.task.id < b.task.id

/-- The submissions of a simulation, by what has become of them. -/
structure Ledger where
  stacked : List Submission := []
  deferred : List Submission := []
  called : List Submission := []
  /-- In the order in which their timers elapse. -/
  waiting : List Submission := []
  current : Option Submission := none
  ended : List Submission := []

namespace Ledger

/-- The submissions that were started, the last one perhaps still running. -/
def started (ledger : Ledger) : List Submission :=
  ledger.ended ++ ledger.current.toList

/-- The submissions that do not wait for a timer, in the order of their
start. -/
def plainLine (ledger : Ledger) : List Submission :=
  ledger.started.filter (!·.isTimed) ++ ledger.deferred ++ ledger.stacked

/-- The submissions that wait for a timer, in the order of their start. -/
def timedLine (ledger : Ledger) : List Submission :=
  ledger.started.filter (·.isTimed) ++ ledger.called ++ ledger.waiting

/-! ## Entries -/

/-- Enters a submission. -/
def submit (ledger : Ledger) (submission : Submission) : Ledger :=
  match submission.task.queue with
  | .callStack => { ledger with stacked := ledger.stacked ++ [submission] }
  | .deferredQueue => { ledger with deferred := ledger.deferred ++ [submission] }
  | .callbackQueue => { ledger with called := ledger.called ++ [submission] }
  | .pendingAsync =>
      { ledger with
        waiting := ledger.waiting.takeWhile (·.dueAt ≤ submission.dueAt) ++
          submission :: ledger.waiting.dropWhile (·.dueAt ≤ submission.dueAt) }

/-- Calls the waiting submissions that are due. -/
def release (ledger : Ledger) (now : Nat) : Ledger :=
  { ledger with
    called := ledger.called ++ ledger.waiting.takeWhile (·.dueAt ≤ now)
    waiting := ledger.waiting.dropWhile (·.dueAt ≤ now) }

/-- Ends the current submission. -/
def finish (ledger : Ledger) : Ledger :=
  { ledger with ended := ledger.started, current := none }

/-- The submission that is started next. -/
def next? (ledger : Ledger) : Option Submission :=
  ledger.deferred.head? <|> ledger.called.head? <|> ledger.stacked.head?

/-- Starts the next submission. -/
def start (ledger : Ledger) : Ledger :=
  match ledger.deferred, ledger.called, ledger.stacked with
  | submission :: rest, _, _ => { ledger with deferred := rest, current := some submission }
  | [], submission :: rest, _ => { ledger with called := rest, current := some submission }
  | [], [], submission :: rest => { ledger with stacked := rest, current := some submission }
  | [], [], [] => ledger

variable {ledger : Ledger} {submissions : List Submission} {submission : Submission}
  {now moment : Nat}

/-! ## What the entries do to the lines -/

theorem started_finish : ledger.finish.started = ledger.started := by
  simp [finish, started]

theorem plainLine_finish : ledger.finish.plainLine = ledger.plainLine := by
  simp [plainLine, finish, started]

theorem timedLine_finish : ledger.finish.timedLine = ledger.timedLine := by
  simp [timedLine, finish, started]

theorem plainLine_release (now : Nat) : (ledger.release now).plainLine = ledger.plainLine := rfl

theorem timedLine_release (now : Nat) : (ledger.release now).timedLine = ledger.timedLine := by
  simp [timedLine, release, started, List.append_assoc]

/-- Releasing at two moments is releasing at the later one. -/
theorem release_release (h : now ≤ moment) :
    (ledger.release now).release moment = ledger.release moment := by
  have hsplit : ∀ list : List Submission,
      list.takeWhile (·.dueAt ≤ now) ++
            (list.dropWhile (·.dueAt ≤ now)).takeWhile (·.dueAt ≤ moment) =
          list.takeWhile (·.dueAt ≤ moment) ∧
        (list.dropWhile (·.dueAt ≤ now)).dropWhile (·.dueAt ≤ moment) =
          list.dropWhile (·.dueAt ≤ moment) := by
    intro list
    induction list with
    | nil => simp
    | cons first rest ih =>
        by_cases hfirst : first.dueAt ≤ now
        · have hmoment : first.dueAt ≤ moment := hfirst.trans h
          simpa [hfirst, hmoment] using ih
        · simp [hfirst]
  obtain ⟨htake, hdrop⟩ := hsplit ledger.waiting
  simp only [release, List.append_assoc, htake, hdrop]

theorem current_submit (ledger : Ledger) (submission : Submission) :
    (ledger.submit submission).current = ledger.current := by
  unfold submit
  split <;> rfl

theorem ended_submit (ledger : Ledger) (submission : Submission) :
    (ledger.submit submission).ended = ledger.ended := by
  unfold submit
  split <;> rfl

/-- Entering submissions does not change what was started. -/
theorem started_foldl_submit (entered : List Submission) :
    ∀ ledger : Ledger, (entered.foldl submit ledger).current = ledger.current ∧
      (entered.foldl submit ledger).ended = ledger.ended := by
  induction entered with
  | nil => exact fun ledger => ⟨rfl, rfl⟩
  | cons submission rest ih =>
      intro ledger
      obtain ⟨hcurrent, hended⟩ := ih (ledger.submit submission)
      exact ⟨hcurrent.trans (ledger.current_submit submission),
        hended.trans (ledger.ended_submit submission)⟩

theorem stacked_submit (submission : Submission) (h : submission.task.queue ≠ .callStack) :
    (ledger.submit submission).stacked = ledger.stacked := by
  unfold submit
  split <;> first | rfl | contradiction

/-! ## What is started -/

theorem next?_eq_none_iff :
    ledger.next? = none ↔ ledger.deferred = [] ∧ ledger.called = [] ∧ ledger.stacked = [] := by
  simp [next?]

theorem start_eq_self (h : ledger.next? = none) : ledger.start = ledger := by
  unfold start
  split <;> simp_all [next?]

/-- A task is started from the container where it stands first. -/
theorem start_cases (h : ledger.next? = some submission) :
    (∃ rest, ledger.deferred = submission :: rest ∧
      ledger.start = { ledger with deferred := rest, current := some submission }) ∨
    (∃ rest, ledger.called = submission :: rest ∧
      ledger.start = { ledger with called := rest, current := some submission }) ∨
    (∃ rest, ledger.stacked = submission :: rest ∧
      ledger.start = { ledger with stacked := rest, current := some submission }) := by
  unfold next? at h
  unfold start
  split
  · rename_i first rest hdeferred
    obtain rfl : first = submission := by simpa [hdeferred] using h
    exact .inl ⟨rest, hdeferred, rfl⟩
  · rename_i first rest hdeferred hcalled
    obtain rfl : first = submission := by simpa [hdeferred, hcalled] using h
    exact .inr (.inl ⟨rest, hcalled, rfl⟩)
  · rename_i first rest hdeferred hcalled hstacked
    obtain rfl : first = submission := by simpa [hdeferred, hcalled, hstacked] using h
    exact .inr (.inr ⟨rest, hstacked, rfl⟩)
  · rename_i hdeferred hcalled hstacked
    simp [hdeferred, hcalled, hstacked] at h

/-- The next submission becomes the current one. -/
theorem current_start (h : ledger.current = none) : ledger.start.current = ledger.next? := by
  unfold start next?
  split <;> simp_all

theorem ended_start : ledger.start.ended = ledger.ended := by
  unfold start
  split <;> rfl

theorem waiting_start : ledger.start.waiting = ledger.waiting := by
  unfold start
  split <;> rfl

theorem stacked_length_start : ledger.start.stacked.length ≤ ledger.stacked.length := by
  unfold start
  split <;> simp_all

/-! ## The invariant -/

/-- A ledger accounts for submissions in order at a moment. -/
structure Ordered (ledger : Ledger) (submissions : List Submission) (now : Nat) : Prop where
  plainLine_eq : ledger.plainLine = submissions.filter (!·.isTimed)
  timedLine_perm : ledger.timedLine.Perm (submissions.filter (·.isTimed))
  timedLine_sorted : ledger.timedLine.Pairwise Submission.Earlier
  dueAt_le : ∀ submission ∈ ledger.started.filter (·.isTimed) ++ ledger.called,
    submission.dueAt ≤ now
  stacked_length_le : ledger.stacked.length ≤ 1

namespace Ordered

theorem isTimed_eq_false (h : ledger.Ordered submissions now)
    (hmem : submission ∈ ledger.plainLine) : submission.isTimed = false := by
  rw [h.plainLine_eq] at hmem
  simpa using (List.mem_filter.1 hmem).2

theorem isTimed_eq_true (h : ledger.Ordered submissions now)
    (hmem : submission ∈ ledger.timedLine) : submission.isTimed = true :=
  (List.mem_filter.1 (h.timedLine_perm.mem_iff.1 hmem)).2

theorem mem_of_mem_timedLine (h : ledger.Ordered submissions now)
    (hmem : submission ∈ ledger.timedLine) : submission ∈ submissions :=
  (List.mem_filter.1 (h.timedLine_perm.mem_iff.1 hmem)).1

theorem nil (now : Nat) : Ordered {} [] now :=
  ⟨rfl, .nil, .nil, by simp [started], by simp⟩

protected theorem finish (h : ledger.Ordered submissions now) :
    ledger.finish.Ordered submissions now := by
  refine ⟨plainLine_finish.trans h.plainLine_eq, timedLine_finish.symm ▸ h.timedLine_perm,
    timedLine_finish.symm ▸ h.timedLine_sorted, ?_, h.stacked_length_le⟩
  rw [started_finish]
  exact h.dueAt_le

protected theorem release (h : ledger.Ordered submissions now) (hle : now ≤ moment) :
    (ledger.release moment).Ordered submissions moment := by
  refine ⟨(plainLine_release moment).trans h.plainLine_eq,
    (timedLine_release moment).symm ▸ h.timedLine_perm,
    (timedLine_release moment).symm ▸ h.timedLine_sorted, ?_, h.stacked_length_le⟩
  intro submission hmem
  rw [release, ← List.append_assoc] at hmem
  rcases List.mem_append.1 hmem with hmem | hmem
  · exact (h.dueAt_le submission hmem).trans hle
  · simpa using List.mem_takeWhile_imp hmem

/-- A start moves the border between what was started and what was not. -/
theorem lines_start (h : ledger.Ordered submissions now) (hcurrent : ledger.current = none) :
    ledger.start.plainLine = ledger.plainLine ∧ ledger.start.timedLine = ledger.timedLine := by
  have hplain : ∀ submission ∈ ledger.deferred ++ ledger.stacked, submission.isTimed = false :=
    fun submission hmem => h.isTimed_eq_false (by
      rw [plainLine, List.append_assoc]
      exact List.mem_append_right _ hmem)
  have htimed : ∀ submission ∈ ledger.called, submission.isTimed = true :=
    fun submission hmem => h.isTimed_eq_true (by
      rw [timedLine, List.append_assoc]
      exact List.mem_append_right _ (List.mem_append_left _ hmem))
  unfold start
  split
  · rename_i submission rest hdeferred
    have hfirst := hplain submission (by simp [hdeferred])
    simp [plainLine, timedLine, started, hdeferred, hcurrent, hfirst]
  · rename_i submission rest hdeferred hcalled
    have hfirst := htimed submission (by simp [hcalled])
    simp [plainLine, timedLine, started, hdeferred, hcalled, hcurrent, hfirst]
  · rename_i submission rest hdeferred hcalled hstacked
    have hfirst := hplain submission (by simp [hstacked])
    simp [plainLine, timedLine, started, hdeferred, hcalled, hstacked, hcurrent, hfirst]
  · exact ⟨rfl, rfl⟩

protected theorem start (h : ledger.Ordered submissions now) (hcurrent : ledger.current = none) :
    ledger.start.Ordered submissions now := by
  obtain ⟨hplain, htimed⟩ := h.lines_start hcurrent
  refine ⟨hplain.trans h.plainLine_eq, htimed.symm ▸ h.timedLine_perm,
    htimed.symm ▸ h.timedLine_sorted, ?_, stacked_length_start.trans h.stacked_length_le⟩
  have hready : ledger.start.started.filter (·.isTimed) ++ ledger.start.called =
      ledger.started.filter (·.isTimed) ++ ledger.called := by
    rw [timedLine, timedLine, waiting_start] at htimed
    exact List.append_cancel_right htimed
  rw [hready]
  exact h.dueAt_le

/-- A submission that does not wait goes to the end of the plain line. -/
theorem submit_plain (h : ledger.Ordered submissions now) (hstacked : ledger.stacked = [])
    (hqueue : submission.task.queue = .callStack ∨ submission.task.queue = .deferredQueue) :
    (ledger.submit submission).Ordered (submissions ++ [submission]) now := by
  have htimed : submission.isTimed = false := by
    rcases hqueue with hqueue | hqueue <;> simp [Submission.isTimed, hqueue]
  have hplain : (ledger.submit submission).plainLine = ledger.plainLine ++ [submission] := by
    rcases hqueue with hqueue | hqueue <;>
      simp [submit, plainLine, started, hqueue, hstacked]
  have hline : (ledger.submit submission).timedLine = ledger.timedLine := by
    rcases hqueue with hqueue | hqueue <;> simp [submit, timedLine, started, hqueue]
  have hready : (ledger.submit submission).started.filter (·.isTimed) ++
      (ledger.submit submission).called = ledger.started.filter (·.isTimed) ++ ledger.called := by
    rcases hqueue with hqueue | hqueue <;> simp [submit, started, hqueue]
  refine ⟨?_, ?_, hline.symm ▸ h.timedLine_sorted, hready.symm ▸ h.dueAt_le, ?_⟩
  · rw [hplain, h.plainLine_eq]
    simp [htimed]
  · rw [hline]
    simpa [htimed] using h.timedLine_perm
  · rcases hqueue with hqueue | hqueue <;> simp [submit, hqueue, hstacked]

/-- A submission that waits goes to its place in the timed line: it is due no
earlier than all that were called already. -/
theorem submit_timed (h : ledger.Ordered submissions now)
    (hnew : ∀ other ∈ submissions, other.task.id < submission.task.id)
    (hdue : now ≤ submission.dueAt) (hqueue : submission.task.queue = .pendingAsync) :
    (ledger.submit submission).Ordered (submissions ++ [submission]) now := by
  have htimed : submission.isTimed = true := by simp [Submission.isTimed, hqueue]
  have hid : ∀ other ∈ ledger.timedLine, other.task.id < submission.task.id := fun other hother =>
    hnew other (h.mem_of_mem_timedLine hother)
  have hline : (ledger.submit submission).timedLine =
      ledger.started.filter (·.isTimed) ++ ledger.called ++
        (ledger.waiting.takeWhile (·.dueAt ≤ submission.dueAt) ++
          submission :: ledger.waiting.dropWhile (·.dueAt ≤ submission.dueAt)) := by
    simp [submit, timedLine, started, hqueue]
  have hperm := perm_insert (·.dueAt ≤ submission.dueAt) submission ledger.waiting
  obtain ⟨hready, hwaiting, hcross⟩ := List.pairwise_append.1 h.timedLine_sorted
  refine ⟨?_, ?_, ?_, ?_, ?_⟩
  · have hplain : (ledger.submit submission).plainLine = ledger.plainLine := by
      simp [submit, plainLine, started, hqueue]
    rw [hplain, h.plainLine_eq]
    simp [htimed]
  · rw [hline, List.filter_append, List.filter_singleton, htimed]
    have hmiddle : (ledger.submit submission).timedLine.Perm (submission :: ledger.timedLine) := by
      rw [hline]
      exact (hperm.append_left _).trans List.perm_middle
    rw [← hline]
    calc List.Perm (ledger.submit submission).timedLine (submission :: ledger.timedLine) := hmiddle
      List.Perm _ (submission :: submissions.filter (·.isTimed)) := h.timedLine_perm.cons _
      List.Perm _ (submissions.filter (·.isTimed) ++ [submission]) :=
          (List.perm_append_singleton _ _).symm
  · rw [hline]
    refine List.pairwise_append.2 ⟨hready, ?_, fun a ha b hb => ?_⟩
    · refine pairwise_insert hwaiting (fun a b hab => ?_) (fun other hother hle => ?_)
        (fun other _ hlt => .inl hlt)
      · unfold Submission.Earlier at hab
        omega
      · -- of those that are due at the same moment it has the highest id
        have := hid other (List.mem_append_right _ hother)
        unfold Submission.Earlier
        omega
    · rcases List.mem_cons.1 (hperm.mem_iff.1 hb) with rfl | hb
      · -- what has been called was due before now
        have := hid a (List.mem_append_left _ ha)
        have := h.dueAt_le a ha
        unfold Submission.Earlier
        omega
      · exact hcross a ha b hb
  · have hsame : (ledger.submit submission).started.filter (·.isTimed) ++
        (ledger.submit submission).called =
          ledger.started.filter (·.isTimed) ++ ledger.called := by
      simp [submit, started, hqueue]
    exact hsame.symm ▸ h.dueAt_le
  · have hsame : (ledger.submit submission).stacked = ledger.stacked := by simp [submit, hqueue]
    exact hsame.symm ▸ h.stacked_length_le

protected theorem submit (h : ledger.Ordered submissions now) (hstacked : ledger.stacked = [])
    (hnew : ∀ other ∈ submissions, other.task.id < submission.task.id)
    (hdue : now ≤ submission.dueAt) (hqueue : submission.task.queue ≠ .callbackQueue) :
    (ledger.submit submission).Ordered (submissions ++ [submission]) now := by
  cases hname : submission.task.queue with
  | callStack => exact h.submit_plain hstacked (.inl hname)
  | deferredQueue => exact h.submit_plain hstacked (.inr hname)
  | pendingAsync => exact h.submit_timed hnew hdue hname
  | callbackQueue => exact absurd hname hqueue

end Ordered

end Ledger

end EventLoop
