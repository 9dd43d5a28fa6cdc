import EventLoop.Engine.Queues

/-!
# Finding, taking and pushing tasks

`locate`, `find?` and `take` search the containers in one fixed order.  An id
is either `Absent`, and then all three give nothing, or it is `Found` at one
place, and then all three mean that place (`absent_or_found`).  Later proofs
about moves use this alternative and never look into the search.
-/

namespace EventLoop

/-- A task that is found by its id stands between two groups of tasks, of which
the first has other ids. -/
theorem Task.split_of_find? {tasks : List Task} {id : Nat} {task : Task}
    (h : tasks.find? (·.id = id) = some task) :
    ∃ before after, tasks = before ++ task :: after ∧ task.id = id ∧
      (∀ other ∈ before, other.id ≠ id) ∧ tasks.eraseP (·.id = id) = before ++ after := by
  obtain ⟨htask, before, after, hsplit, hbefore⟩ := List.find?_eq_some_iff_append.1 h
  have hid : task.id = id := by simpa using htask
  have hne : ∀ other ∈ before, other.id ≠ id := fun other hother => by
    simpa using hbefore other hother
  refine ⟨before, after, hsplit, hid, hne, ?_⟩
  rw [hsplit, List.eraseP_append_right _ (by simpa using hne)]
  simp [hid]

namespace Queues

/-- No container holds the id. -/
structure Absent (queues : Queues) (id : Nat) : Prop where
  ne_of_mem : ∀ queue, ∀ task ∈ queues.get queue, task.id ≠ id
  locate_eq : queues.locate id = none
  find_eq : queues.find? id = none
  take_eq : queues.take id = none

/-- The first task with the id stands in a container between two groups of
other tasks. -/
structure Found (queues : Queues) (id : Nat) (queue : Queue) (before : List Task) (task : Task)
    (after : List Task) : Prop where
  get_eq : queues.get queue = before ++ task :: after
  id_eq : task.id = id
  ne_of_mem_before : ∀ other ∈ before, other.id ≠ id
  locate_eq : queues.locate id = some queue
  find_eq : queues.find? id = some task
  take_eq : queues.take id = some (task, queues.modify queue fun _ => before ++ after)

theorem Found.mem {queues : Queues} {id : Nat} {queue : Queue} {before after : List Task}
    {task : Task} (h : queues.Found id queue before task after) : task ∈ queues.get queue := by
  rw [h.get_eq]
  simp

theorem modify_congr (queues : Queues) {queue : Queue} {first second : List Task → List Task}
    (h : first (queues.get queue) = second (queues.get queue)) :
    queues.modify queue first = queues.modify queue second := by
  cases queue <;> simp_all [modify, get]

theorem locate_eq_none_iff {queues : Queues} {id : Nat} :
    queues.locate id = none ↔ ∀ queue, ∀ task ∈ queues.get queue, task.id ≠ id := by
  constructor
  · intro h queue task htask heq
    have hnone := List.find?_eq_none.1 h queue (by cases queue <;> simp [Queue.all])
    exact hnone (List.any_eq_true.2 ⟨task, htask, by simpa using heq⟩)
  · intro h
    refine List.find?_eq_none.2 fun queue _ hany => ?_
    obtain ⟨task, htask, heq⟩ := List.any_eq_true.1 hany
    exact h queue task htask (by simpa using heq)

theorem exists_find?_of_locate {queues : Queues} {id : Nat} {queue : Queue}
    (h : queues.locate id = some queue) :
    ∃ task, (queues.get queue).find? (·.id = id) = some task := by
  have hany := List.find?_some h
  obtain ⟨task, htask, hid⟩ := List.any_eq_true.1 hany
  have hsome : ((queues.get queue).find? (·.id = id)).isSome :=
    List.find?_isSome.2 ⟨task, htask, hid⟩
  exact Option.isSome_iff_exists.1 hsome

/-- A search through the containers ends in the one that `locate` names. -/
theorem find?_of_locate {queues : Queues} {id : Nat} {queue : Queue}
    (h : queues.locate id = some queue) :
    queues.find? id = (queues.get queue).find? (·.id = id) := by
  obtain ⟨_, earlier, later, hall, hearlier⟩ := List.find?_eq_some_iff_append.1 h
  -- the containers that are searched before have no task with the id
  have hnone : earlier.findSome? (fun other => (queues.get other).find? (·.id = id)) = none := by
    refine List.findSome?_eq_none_iff.2 fun other hother => List.find?_eq_none.2 ?_
    intro task htask heq
    have hany := hearlier other hother
    simp only [Bool.not_eq_true', List.any_eq_false] at hany
    exact hany task htask heq
  obtain ⟨task, htask⟩ := exists_find?_of_locate h
  rw [find?, hall, List.findSome?_append, hnone, List.findSome?_cons, htask]
  rfl

/-- An id is absent, or it is found at a place that all searches agree on. -/
theorem absent_or_found (queues : Queues) (id : Nat) :
    queues.Absent id ∨ ∃ queue before task after, queues.Found id queue before task after := by
  cases hlocate : queues.locate id with
  | none =>
      have hne := locate_eq_none_iff.1 hlocate
      refine .inl ⟨hne, hlocate, ?_, by simp [take, hlocate]⟩
      exact List.findSome?_eq_none_iff.2 fun queue _ =>
        List.find?_eq_none.2 fun task htask => by simpa using hne queue task htask
  | some queue =>
      obtain ⟨task, hfind⟩ := exists_find?_of_locate hlocate
      obtain ⟨before, after, hget, hid, hne, herase⟩ := Task.split_of_find? hfind
      refine .inr ⟨queue, before, task, after, hget, hid, hne, hlocate, ?_, ?_⟩
      · rw [find?_of_locate hlocate, hfind]
      · rw [take, hlocate, Option.bind_some, hfind, Option.map_some]
        exact congrArg (fun queues => some (task, queues)) (modify_congr queues herase)

/-- An id is found in a container, or the search for it does not end there. -/
theorem found_or_elsewhere (queues : Queues) (id : Nat) (queue : Queue) :
    (∃ before task after, queues.Found id queue before task after) ∨
      queues.locate id ≠ some queue := by
  rcases queues.absent_or_found id with habsent | ⟨source, before, task, after, hfound⟩
  · exact .inr (by simp [habsent.locate_eq])
  · by_cases hsource : source = queue
    · exact .inl ⟨before, task, after, hsource ▸ hfound⟩
    · exact .inr (by simpa [hfound.locate_eq] using hsource)

/-! ## The contents after a change -/

theorem get_modify (queues : Queues) (queue other : Queue) (change : List Task → List Task) :
    (queues.modify queue change).get other =
      if other = queue then change (queues.get other) else queues.get other := by
  by_cases h : other = queue
  · subst h
    simp
  · rw [if_neg h, get_modify_of_ne queues change h]

theorem get_push (queues : Queues) (task : Task) (queue : Queue) :
    (queues.push task).get queue =
      if queue = task.queue then queues.get queue ++ [task] else queues.get queue :=
  get_modify queues task.queue queue _

end Queues

end EventLoop
