import EventLoop.Proofs.Engine.Release

/-!
# Any use of a schedule

A schedule that is made by entering, popping and cancelling timers, whichever they are, has its
timers in the order in which they elapse, and none of them twice (`Sorted`).  The order is
total, so that entering a timer keeps it (`Sorted.schedule`); all other operations leave a part
of the schedule in place.

Popping is a loop: it takes the first timer as long as that one is due (`Pops`).  It stops at
the first timer that is not due, and because of the order no later one is due either, so that it
takes exactly the timers that are due (`Sorted.popDue_eq_filter`).
-/

namespace EventLoop

/-! ## The order of timers -/

namespace Timer

theorem before_trans {a b c : Timer} (hab : a.before b = true) (hbc : b.before c = true) :
    a.before c = true := by
  rw [before_iff] at *
  omega

theorem before_irrefl (a : Timer) : a.before a = false := by
  refine Bool.eq_false_iff.2 fun h => ?_
  rw [before_iff] at h
  omega

/-- Of two timers one elapses before the other, unless they are the same. -/
theorem eq_of_not_before {a b : Timer} (hab : ¬ a.before b = true) (hba : ¬ b.before a = true) :
    a = b := by
  rw [before_iff] at hab hba
  have hkeys : a.dueAt = b.dueAt ∧ a.seq = b.seq ∧ a.taskId = b.taskId := by omega
  obtain ⟨hdue, hseq, hid⟩ := hkeys
  cases a
  cases b
  subst hdue hseq hid
  rfl

end Timer

namespace Timers

variable {timers : Timers} {timer : Timer}

/-- The timers are in the order in which they elapse. -/
def Sorted (timers : Timers) : Prop :=
  timers.entries.Pairwise fun a b => a.before b = true

/-- No timer is twice in a schedule that is in order. -/
theorem Sorted.nodup (h : timers.Sorted) : timers.entries.Nodup := by
  refine h.imp fun {a b} hab heq => ?_
  rw [heq, Timer.before_irrefl] at hab
  contradiction

theorem Sorted.sublist (h : timers.Sorted) {entries : List Timer}
    (hentries : entries.Sublist timers.entries) : (Timers.mk entries).Sorted :=
  List.Pairwise.sublist hentries h

/-! ## Entering a timer -/

theorem mem_insertTimer {other : Timer} {entries : List Timer} :
    other ∈ insertTimer timer entries ↔ other = timer ∨ other ∈ entries := by
  induction entries with
  | nil => simp [insertTimer]
  | cons first rest ih =>
      rw [insertTimer]
      split
      · rw [List.mem_cons]
      · split
        · rw [List.mem_cons, List.mem_cons, ih]
          exact or_left_comm
        · rename_i hbefore hbehind
          obtain rfl := Timer.eq_of_not_before hbefore hbehind
          rw [List.mem_cons]
          exact (or_iff_right_of_imp .inl).symm

theorem mem_schedule {other : Timer} :
    other ∈ (timers.schedule timer).entries ↔ other = timer ∨ other ∈ timers.entries :=
  mem_insertTimer

theorem Sorted.schedule (h : timers.Sorted) (timer : Timer) : (timers.schedule timer).Sorted := by
  obtain ⟨entries⟩ := timers
  change (insertTimer timer entries).Pairwise _
  change entries.Pairwise _ at h
  induction entries with
  | nil => exact List.pairwise_singleton _ _
  | cons first rest ih =>
      obtain ⟨hfirst, hrest⟩ := List.pairwise_cons.1 h
      rw [insertTimer]
      split
      · rename_i hbefore
        refine List.pairwise_cons.2 ⟨fun other hother => ?_, h⟩
        rcases List.mem_cons.1 hother with rfl | hother
        · exact hbefore
        · exact Timer.before_trans hbefore (hfirst other hother)
      · split
        · rename_i hbehind
          refine List.pairwise_cons.2 ⟨fun other hother => ?_, ih hrest⟩
          rcases mem_insertTimer.1 hother with rfl | hother
          · exact hbehind
          · exact hfirst other hother
        · exact h

/-! ## Popping timers -/

/-- The first timer and the others, if the first one is due. -/
def popFirst? (timers : Timers) (now : Nat) : Option (Timer × Timers) :=
  match timers.entries with
  | [] => none
  | first :: rest => if first.dueAt ≤ now then some (first, ⟨rest⟩) else none

/-- Popping timers one by one until the first one is not due, or none is left. -/
inductive Pops (now : Nat) : Timers → List Timer → Timers → Prop where
  | stop {timers : Timers} (h : timers.popFirst? now = none) : Pops now timers [] timers
  | pop {timers rest last : Timers} {first : Timer} {due : List Timer}
      (h : timers.popFirst? now = some (first, rest)) (hrest : Pops now rest due last) :
      Pops now timers (first :: due) last

/-- Popping one by one comes to an end, and to what `popDue` gives. -/
theorem pops_iff {now : Nat} {due : List Timer} {last : Timers} :
    Pops now timers due last ↔ timers.popDue now = (due, last) := by
  constructor
  · intro h
    induction h with
    | @stop timers h =>
        obtain ⟨entries⟩ := timers
        cases entries with
        | nil => rfl
        | cons first rest =>
            have hlate : ¬ first.dueAt ≤ now := fun hdue => by simp [popFirst?, hdue] at h
            simp [popDue, hlate]
    | @pop timers rest last first due h _ ih =>
        obtain ⟨entries⟩ := timers
        cases entries with
        | nil => contradiction
        | cons head tail =>
            obtain ⟨hdue, heq⟩ := Option.ite_none_right_eq_some.1 h
            obtain ⟨rfl, rfl⟩ := Prod.mk.inj (Option.some.inj heq)
            obtain ⟨hfirst, hlast⟩ := Prod.mk.inj ih
            rw [popDue, List.takeWhile_cons_of_pos (by simpa using hdue),
              List.dropWhile_cons_of_pos (by simpa using hdue), hfirst, hlast]
  · intro h
    obtain ⟨entries⟩ := timers
    obtain ⟨rfl, rfl⟩ := Prod.mk.inj h
    clear h
    -- the loop goes down the list of timers
    induction entries with
    | nil => exact .stop rfl
    | cons first rest ih =>
        by_cases hdue : first.dueAt ≤ now
        · rw [List.takeWhile_cons_of_pos (by simpa using hdue),
            List.dropWhile_cons_of_pos (by simpa using hdue)]
          exact .pop (if_pos hdue) ih
        · rw [List.takeWhile_cons_of_neg (by simpa using hdue),
            List.dropWhile_cons_of_neg (by simpa using hdue)]
          exact .stop (if_neg hdue)

/-- Popping at a moment and at a later one gives together what popping at the later one gives. -/
theorem popDue_popDue (timers : Timers) {first second : Nat} (hle : first ≤ second) :
    (timers.popDue first).1 ++ ((timers.popDue first).2.popDue second).1 =
        (timers.popDue second).1 ∧
      ((timers.popDue first).2.popDue second).2 = (timers.popDue second).2 := by
  obtain ⟨entries⟩ := timers
  unfold popDue
  dsimp only
  induction entries with
  | nil => exact ⟨rfl, rfl⟩
  | cons timer rest ih =>
      by_cases hdue : timer.dueAt ≤ first
      · have hlater : timer.dueAt ≤ second := Nat.le_trans hdue hle
        obtain ⟨hpopped, hleft⟩ := ih
        simp only [List.takeWhile_cons, List.dropWhile_cons, hdue, hlater, decide_true, if_true,
          List.cons_append, hpopped]
        exact ⟨trivial, hleft⟩
      · -- nothing is popped at the first moment
        simp only [List.takeWhile_cons, List.dropWhile_cons, hdue, decide_false,
          Bool.false_eq_true, if_false, List.nil_append]
        exact ⟨trivial, trivial⟩

namespace Sorted

variable (h : timers.Sorted)

include h

/-- The timers that are popped are those that are due, and the others are left. -/
theorem popDue_eq_filter (now : Nat) :
    timers.popDue now = (timers.entries.filter (·.dueAt ≤ now),
      ⟨timers.entries.filter fun timer => now < timer.dueAt⟩) := by
  have hdue : timers.entries.Pairwise fun a b => a.dueAt ≤ b.dueAt :=
    h.imp Timer.dueAt_le_of_before
  obtain ⟨htake, hdrop⟩ := Engine.takeWhile_eq_filter hdue now
  rw [popDue, htake, hdrop]

protected theorem popDue (now : Nat) : (timers.popDue now).2.Sorted :=
  h.sublist (List.dropWhile_sublist _)

/-! ## Cancelling a timer -/

protected theorem cancel (taskId : Nat) : (timers.cancel taskId).Sorted :=
  h.sublist List.eraseP_sublist

/-- Cancelling removes the least timer of a task, and nothing else. -/
theorem cancel_least {taskId : Nat} (htimer : timers.timerOf? taskId = some timer) :
    timer ∈ timers.entries ∧ timer.taskId = taskId ∧
      (∀ other ∈ timers.entries, other.taskId = taskId → other = timer ∨ timer.before other) ∧
      (timers.cancel taskId).entries = timers.entries.filter (· ≠ timer) := by
  obtain ⟨entries⟩ := timers
  obtain ⟨htask, earlier, behind, rfl, hearlier⟩ := List.find?_eq_some_iff_append.1 htimer
  have hnone : ∀ other ∈ earlier, other.taskId ≠ taskId := fun other hother => by
    simpa using hearlier other hother
  obtain ⟨-, hbehind, hacross⟩ := List.pairwise_append.1 h
  obtain ⟨hfirst, -⟩ := List.pairwise_cons.1 hbehind
  have hnodup : (earlier ++ timer :: behind).Nodup := h.nodup
  refine ⟨by simp, by simpa using htask, fun other hother hid => ?_, ?_⟩
  · rcases List.mem_append.1 hother with hother | hother
    · exact absurd hid (hnone other hother)
    · exact (List.mem_cons.1 hother).imp_right (hfirst other)
  · have hnotEarlier : timer ∉ earlier := fun hmem =>
      hnone timer hmem (by simpa using htask)
    have hnotBehind : timer ∉ behind := (List.nodup_cons.1 hnodup.of_append_right).1
    have herase : (earlier ++ timer :: behind).eraseP (·.taskId = taskId) = earlier ++ behind := by
      rw [List.eraseP_append_right _ (by simpa using hnone), List.eraseP_cons, htask, cond_true]
    have hkeep (others : List Timer) (hnot : timer ∉ others) :
        others.filter (· ≠ timer) = others :=
      List.filter_eq_self.2 fun other hother => by
        simpa using fun heq : other = timer => hnot (heq ▸ hother)
    rw [cancel, herase, List.filter_append, List.filter_cons_of_neg (by simp), hkeep _ hnotEarlier,
      hkeep _ hnotBehind]

/-- The next moment at which a timer is due is the least one. -/
theorem nextDue?_eq_some_iff {moment : Nat} :
    timers.nextDue? = some moment ↔
      (∃ timer ∈ timers.entries, timer.dueAt = moment) ∧
        ∀ timer ∈ timers.entries, moment ≤ timer.dueAt := by
  obtain ⟨entries⟩ := timers
  cases entries with
  | nil => simp [nextDue?]
  | cons first rest =>
      obtain ⟨hfirst, -⟩ := List.pairwise_cons.1 h
      have hleast : ∀ timer ∈ first :: rest, first.dueAt ≤ timer.dueAt :=
        List.forall_mem_cons.2 ⟨Nat.le_refl _, fun timer htimer =>
          Timer.dueAt_le_of_before (hfirst timer htimer)⟩
      constructor
      · intro hnext
        obtain rfl : first.dueAt = moment := Option.some.inj hnext
        exact ⟨⟨first, List.mem_cons_self, rfl⟩, hleast⟩
      · rintro ⟨⟨timer, htimer, rfl⟩, hle⟩
        exact congrArg some (Nat.le_antisymm (hleast timer htimer) (hle first List.mem_cons_self))

end Sorted

/-- What a task without timers cancels. -/
theorem cancel_none {taskId : Nat} (htimer : timers.timerOf? taskId = none) :
    timers.cancel taskId = timers ∧ ∀ timer ∈ timers.entries, timer.taskId ≠ taskId := by
  have hnone : ∀ timer ∈ timers.entries, timer.taskId ≠ taskId := fun timer hmem => by
    simpa using List.find?_eq_none.1 htimer timer hmem
  exact ⟨congrArg Timers.mk (List.eraseP_of_forall_not (by simpa using hnone)), hnone⟩

theorem nextDue?_eq_none_iff : timers.nextDue? = none ↔ timers.entries = [] :=
  Option.map_eq_none_iff.trans List.head?_eq_none_iff

/-! ## Runs -/

/-- An operation on a schedule. -/
inductive Operation where
  | schedule (timer : Timer)
  | popDue (now : Nat)
  | cancel (taskId : Nat)
  | clear

/-- The schedule after an operation. -/
def perform (timers : Timers) : Operation → Timers
  | .schedule timer => timers.schedule timer
  | .popDue now => (timers.popDue now).2
  | .cancel taskId => timers.cancel taskId
  | .clear => .empty

/-- The schedule after some operations, which starts without timers. -/
def afterAll (operations : List Operation) : Timers :=
  operations.foldl perform .empty

theorem Sorted.perform (h : timers.Sorted) (operation : Operation) :
    (timers.perform operation).Sorted := by
  cases operation with
  | schedule timer => exact h.schedule timer
  | popDue now => exact h.popDue now
  | cancel taskId => exact h.cancel taskId
  | clear => exact List.Pairwise.nil

theorem sorted_afterAll (operations : List Operation) : (afterAll operations).Sorted := by
  have hall : ∀ timers : Timers, timers.Sorted →
      (operations.foldl Timers.perform timers).Sorted := by
    induction operations with
    | nil => exact fun _ h => h
    | cons operation rest ih => exact fun timers h => ih _ (h.perform operation)
  exact hall .empty List.Pairwise.nil

/-- What the operations of a schedule do. -/
structure Orderly (timers : Timers) : Prop where
  /-- The timers are in strict order, by due time, number and task. -/
  sorted : timers.Sorted
  nodup : timers.entries.Nodup
  mem_schedule : ∀ timer other,
    other ∈ (timers.schedule timer).entries ↔ other = timer ∨ other ∈ timers.entries
  /-- Popping one by one comes to an end. -/
  pops_iff : ∀ now due last, Pops now timers due last ↔ timers.popDue now = (due, last)
  popDue_eq : ∀ now, timers.popDue now = (timers.entries.filter (·.dueAt ≤ now),
    ⟨timers.entries.filter fun timer => now < timer.dueAt⟩)
  popDue_popDue : ∀ first second, first ≤ second →
    (timers.popDue first).1 ++ ((timers.popDue first).2.popDue second).1 =
        (timers.popDue second).1 ∧
      ((timers.popDue first).2.popDue second).2 = (timers.popDue second).2
  cancel_none : ∀ taskId, timers.timerOf? taskId = none →
    timers.cancel taskId = timers ∧ ∀ timer ∈ timers.entries, timer.taskId ≠ taskId
  cancel_least : ∀ taskId timer, timers.timerOf? taskId = some timer →
    timer ∈ timers.entries ∧ timer.taskId = taskId ∧
      (∀ other ∈ timers.entries, other.taskId = taskId → other = timer ∨ timer.before other) ∧
      (timers.cancel taskId).entries = timers.entries.filter (· ≠ timer)
  nextDue?_none : timers.nextDue? = none ↔ timers.entries = []
  nextDue?_some : ∀ moment, timers.nextDue? = some moment ↔
    (∃ timer ∈ timers.entries, timer.dueAt = moment) ∧
      ∀ timer ∈ timers.entries, moment ≤ timer.dueAt

/-- **Schedules stay in order**, whatever timers are entered, popped and cancelled.  After any
operations the timers are in strict order; popping comes to an end and takes exactly the timers
that are due, in this order, also in two steps; cancelling removes the least timer of a task or
nothing; and the next moment is the least at which a timer is due. -/
theorem orderly_afterAll (operations : List Operation) : (afterAll operations).Orderly where
  sorted := sorted_afterAll operations
  nodup := (sorted_afterAll operations).nodup
  mem_schedule := fun _ _ => Timers.mem_schedule
  pops_iff := fun _ _ _ => Timers.pops_iff
  popDue_eq := (sorted_afterAll operations).popDue_eq_filter
  popDue_popDue := fun _ _ => (afterAll operations).popDue_popDue
  cancel_none := fun _ => Timers.cancel_none
  cancel_least := fun _ _ => (sorted_afterAll operations).cancel_least
  nextDue?_none := nextDue?_eq_none_iff
  nextDue?_some := fun _ => (sorted_afterAll operations).nextDue?_eq_some_iff

/-- Two timers of a task that are due together: the one with the lesser number is cancelled. -/
example :
    let timers := afterAll [.schedule ⟨5, 1, 7⟩, .schedule ⟨5, 0, 7⟩, .schedule ⟨3, 2, 8⟩]
    (timers.cancel 7).entries = [⟨3, 2, 8⟩, ⟨5, 1, 7⟩] := by decide

end Timers

end EventLoop
