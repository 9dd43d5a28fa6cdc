import EventLoop.Engine.Basic
import EventLoop.Proofs.Step.Walk

/-!
# The fields of a step agree

A step says in several fields what kind of work it is: its action, the queue
that it goes to, whether it is asynchronous, how urgent it is, how long it
waits, what it prints and what it binds.  Schedulers look at one field or the
other, so the fields have to tell the same story (`Step.Coherent`).  Every step
that `classify` makes does.

Two functions look at a call: `nestedAction?` says whether it deserves a step
inside another expression, `classify` makes its step.  They go by the same
`CallShape`, so the action that is announced is the action of the step
(`action_classifyExpr`).

A task of the deferred queue keeps the urgency of its step, and any other task
has none.  Steps of scripts are urgent in that queue only
(`deferredQueue_of_high`), so they lose nothing by that.
-/

namespace EventLoop

open Script

/-- The fields of a step tell the same story. -/
structure Step.Coherent (step : Step) : Prop where
  pendingAsync : step.targetQueue = .pendingAsync ↔ step.action = .timer ∨ step.action = .network
  deferredQueue : step.targetQueue = .deferredQueue ↔ step.action = .deferred
  callbackQueue : step.targetQueue ≠ .callbackQueue
  isAsync : step.isAsync = true ↔ step.targetQueue ≠ .callStack
  priority : step.priority = .high ↔ step.targetQueue = .deferredQueue
  delayMs : step.targetQueue ≠ .pendingAsync → step.delayMs = 0
  outputPayload : step.outputPayload.isSome = true ↔ step.action = .console
  boundVariables : step.action ≠ .variableDeclaration → step.action ≠ .variableAssignment →
    step.boundVariables = .empty

namespace Step.Coherent

/-- A step that prints nothing, binds nothing and does not wait is coherent,
unless its action asks for more than the call stack. -/
theorem plain {action : Action} (haction : action ∉ [.console, .timer, .network, .deferred])
    (kind : NodeKind) (sourceLine : Nat) (description : String) :
    Coherent { kind, sourceLine, description, action } := by
  simp only [List.mem_cons, List.not_mem_nil, or_false, not_or] at haction
  obtain ⟨hconsole, htimer, hnetwork, hdeferred⟩ := haction
  exact
    { pendingAsync := by simp [htimer, hnetwork]
      deferredQueue := by simp [hdeferred]
      callbackQueue := by simp
      isAsync := by simp
      priority := by simp
      delayMs := fun _ => rfl
      outputPayload := by simp [hconsole]
      boundVariables := fun _ _ => rfl }

variable {step : Step}

/-- A step that declares or assigns stays coherent when it binds values. -/
theorem binding (h : step.Coherent)
    (haction : step.action = .variableDeclaration ∨ step.action = .variableAssignment)
    (values : Table Value) : Coherent { step with boundVariables := values } :=
  { h with
    boundVariables := fun hdeclares hassigns =>
      absurd haction (not_or.2 ⟨hdeclares, hassigns⟩) }

/-- A step is coherent whatever its description is. -/
theorem described (h : step.Coherent) (description : String) :
    Coherent { step with description := description } :=
  { h with }

theorem placedIn (h : step.Coherent) (ancestry : List Ancestor) :
    (step.placedIn ancestry).Coherent := by
  cases ancestry with
  | nil => exact h
  | cons ancestor rest => exact h.described _

end Step.Coherent

/-! ## Steps of nodes -/

theorem coherent_callStep (shape : CallShape) (known : Extraction) (kind : NodeKind) (e : Expr) :
    (shape.step known kind e).Coherent := by
  cases shape <;> constructor <;> simp [CallShape.step, CallShape.action]

theorem coherent_classifyExpr (known : Extraction) (kind : NodeKind) (e : Expr) :
    (classifyExpr known kind e).Coherent := by
  unfold classifyExpr
  dsimp only
  split
  · exact (Step.Coherent.plain (by decide) kind _ _).binding (.inr rfl) _
  · exact (Step.Coherent.plain (by decide) kind _ _).binding (.inr rfl) _
  · split
    · exact coherent_callStep _ known kind e
    · exact .plain (by decide) kind _ _

theorem coherent_classifyStmt (known : Extraction) (stmt : Stmt) :
    (classifyStmt known stmt).Coherent := by
  fun_induction classifyStmt known stmt with
  | case1 kind declarators span =>
      exact (Step.Coherent.plain (by decide) _ _ _).binding (.inl rfl) _
  | case17 label body span step ih => exact ih.described _
  | case19 e span => exact coherent_classifyExpr known _ e
  | _ => exact .plain (by decide) _ _ _

theorem coherent_classify (known : Extraction) (ancestry : List Ancestor) (node : Node) :
    (classify known ancestry node).Coherent := by
  unfold classify
  refine Step.Coherent.placedIn ?_ ancestry
  split
  · exact coherent_classifyStmt known _
  · exact coherent_classifyExpr known _ _

/-! ## Both views of an expression -/

@[simp]
theorem Step.action_placedIn (step : Step) (ancestry : List Ancestor) :
    (step.placedIn ancestry).action = step.action := by
  cases ancestry <;> rfl

@[simp]
theorem action_callStep (shape : CallShape) (known : Extraction) (kind : NodeKind) (e : Expr) :
    (shape.step known kind e).action = shape.action := by
  cases shape <;> rfl

/-- What is announced for an expression is the action of its step, and an
expression for which nothing is announced is plain work or an assignment. -/
theorem action_classifyExpr (known : Extraction) (kind : NodeKind) (e : Expr) :
    nestedAction? known e = some (classifyExpr known kind e).action ∨
      nestedAction? known e = none ∧
        ((classifyExpr known kind e).action = .statement ∨
          (classifyExpr known kind e).action = .variableAssignment) := by
  unfold classifyExpr
  dsimp only
  split
  · exact .inr ⟨rfl, .inr rfl⟩
  · exact .inr ⟨rfl, .inr rfl⟩
  · unfold nestedAction?
    split
    · simp_all [CallShape.action]
    · simp_all
    · simp_all

/-! ## Urgency -/

/-- A step that is urgent only in the deferred queue keeps its urgency as a
task. -/
theorem Task.priority_ofStep {step : Step}
    (h : step.priority = .high → step.targetQueue = .deferredQueue) (id : Nat) :
    (Task.ofStep id step).priority = step.priority := by
  by_cases hqueue : step.targetQueue = .deferredQueue
  · exact if_pos hqueue
  · have hnormal : step.priority = .normal := by
      cases hpriority : step.priority with
      | normal => rfl
      | high => exact absurd (h hpriority) hqueue
    rw [hnormal]
    exact if_neg hqueue

/-- Steps of a script are urgent only in the deferred queue. -/
theorem deferredQueue_of_high (source : String) :
    ∀ step ∈ stepsOf source, step.priority = .high → step.targetQueue = .deferredQueue := by
  have hkept : Kept fun known =>
      ∀ step ∈ known.steps, step.priority = .high → step.targetQueue = .deferredQueue := by
    refine ⟨?_, fun known info hknown => hknown⟩
    intro known ancestry node hknown step hstep
    rcases List.mem_append.1 hstep with hstep | hstep
    · exact hknown step hstep
    · rw [List.mem_singleton.1 hstep]
      exact (coherent_classify known ancestry node).priority.1
  unfold stepsOf extractSource
  split
  · exact hkept.extract (by simp [Extraction.empty]) _
  · intro step hstep
    rw [List.mem_singleton.1 hstep]
    exact Priority.noConfusion

/-- **The fields of a step agree**, in the step of any node.  The action that
is announced for an expression is the action of its step; where none is
announced the step is plain work or an assignment.  And whatever the script,
its steps are admitted with the urgency that they have. -/
theorem coherent_steps :
    (∀ known ancestry node, (classify known ancestry node).Coherent) ∧
    (∀ known ancestry e,
      (∀ action, nestedAction? known e = some action →
        (classify known ancestry (.expr e)).action = action) ∧
      (nestedAction? known e = none →
        (classify known ancestry (.expr e)).action = .statement ∨
          (classify known ancestry (.expr e)).action = .variableAssignment)) ∧
    ∀ source, ∀ step ∈ stepsOf source, ∀ engine : Engine,
      (engine.submit step).1.priority = step.priority := by
  refine ⟨coherent_classify, fun known ancestry e => ?_, fun source step hstep engine =>
    Task.priority_ofStep (deferredQueue_of_high source step hstep) engine.nextId⟩
  have haction : (classify known ancestry (.expr e)).action =
      (classifyExpr known (kindOfExpr e) e).action := Step.action_placedIn _ ancestry
  rw [haction]
  rcases action_classifyExpr known (kindOfExpr e) e with hsome | ⟨hnone, hplain⟩
  · rw [hsome]
    exact ⟨fun action h => Option.some.inj h, fun h => by contradiction⟩
  · rw [hnone]
    exact ⟨fun action h => by contradiction, fun _ => hplain⟩

/-- An awaited call inside a declaration has a step of its own, which is
deferred and is admitted with high priority. -/
theorem coherent_steps_await :
    ((stepsOf "let a = await f()").map fun step => (step.action, step.priority)) =
      [(.variableDeclaration, .normal), (.deferred, .high)] ∧
    ∀ step ∈ stepsOf "let a = await f()", ∀ engine : Engine,
      (engine.submit step).1.priority = step.priority :=
  ⟨by decide +kernel, coherent_steps.2.2 "let a = await f()"⟩

end EventLoop
