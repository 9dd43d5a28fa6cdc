import EventLoop.Proofs.Number.Finite
import EventLoop.Proofs.Step.Codec
import EventLoop.Proofs.Step.Lines

/-!
# Steps that survive their records

The steps of a text are written as records and read back elsewhere.  Delays are cut off at
the greatest number of a record, so that only two things can go wrong with a step: a line
beyond that number, which takes a text of as many line feeds, and a variable that is bound
to a number which is not finite (`Step.isRecordable_stepsOf`).

Arithmetic makes no such number, because its result is dropped if it is not finite; negation
makes none of a finite one, and names only stand for what has been bound before.  So all
steps survive unless the text itself has a number literal beyond the range of doubles
(`record_stepsOf`).  With one it goes wrong: `let a = 1e999` binds `a` to infinity, which a
record writes as `null`, and no value reads back from that (`infinite_lost`).
-/

namespace EventLoop

open Script

/-! ## Delays -/

theorem timerDelayMs_le (bindings : Table Value) (args : List Expr) :
    timerDelayMs bindings args ≤ Step.maxRecordInt := by
  unfold timerDelayMs
  split
  · rename_i ms _
    split
    · exact Nat.le_of_lt_succ ms.toUInt64.toNat_lt
    · decide
  · decide

/-- The delay of a step fits its record. -/
def Step.DelayFits (step : Step) : Prop :=
  step.delayMs ≤ maxRecordInt

theorem delayFits_callStep (shape : CallShape) (known : Extraction) (kind : NodeKind) (e : Expr) :
    (shape.step known kind e).DelayFits := by
  cases shape with
  | timer name => exact timerDelayMs_le known.bindings (argsOfCall e)
  | network name => exact (by decide : networkDelayMs ≤ Step.maxRecordInt)
  | _ => exact Nat.zero_le _

theorem delayFits_classifyExpr (known : Extraction) (kind : NodeKind) (e : Expr) :
    (classifyExpr known kind e).DelayFits := by
  unfold classifyExpr
  dsimp only
  split
  · exact Nat.zero_le _
  · exact Nat.zero_le _
  · split
    · exact delayFits_callStep _ known kind e
    · exact Nat.zero_le _

theorem delayFits_classifyStmt (known : Extraction) (stmt : Stmt) :
    (classifyStmt known stmt).DelayFits := by
  fun_induction classifyStmt known stmt with
  | case17 label body span step ih => exact ih
  | case19 e span => exact delayFits_classifyExpr known _ e
  | _ => exact Nat.zero_le _

theorem delayFits_classify (known : Extraction) (ancestry : List Ancestor) (node : Node) :
    (classify known ancestry node).DelayFits := by
  have hplaced (step : Step) (h : step.DelayFits) : (step.placedIn ancestry).DelayFits := by
    cases ancestry <;> exact h
  unfold classify
  refine hplaced _ ?_
  split
  · exact delayFits_classifyStmt known _
  · exact delayFits_classifyExpr known _ _

/-- The delays of the steps of a text fit their records. -/
theorem delayFits_stepsOf (source : String) : ∀ step ∈ stepsOf source, step.DelayFits := by
  have hkept : Kept fun known => ∀ step ∈ known.steps, step.DelayFits := by
    refine ⟨fun known ancestry node hknown => ?_, fun known info hknown => hknown⟩
    exact List.forall_mem_append.2
      ⟨hknown, List.forall_mem_singleton.2 (delayFits_classify known ancestry node)⟩
  unfold stepsOf extractSource
  split
  · exact hkept.extract (by simp [Extraction.empty]) _
  · exact List.forall_mem_singleton.2 (Nat.zero_le _)

/-- A step of a text fits its record if its line does and if it binds finite numbers. -/
theorem Step.isRecordable_stepsOf {source : String} {step : Step} (h : step ∈ stepsOf source) :
    step.isRecordable =
      (decide (step.sourceLine ≤ maxRecordInt) && step.boundVariables.isFinite) := by
  have hdelay : step.delayMs ≤ maxRecordInt := delayFits_stepsOf source step h
  rw [isRecordable, decide_eq_true hdelay, Bool.and_true]

/-! ## Finite values -/

namespace Table

theorem isFinite_iff {table : Table Value} :
    table.isFinite = true ↔ ∀ entry ∈ table.entries, entry.2.isFinite = true :=
  List.all_eq_true

theorem isFinite_insert {table : Table Value} {name : String} {value : Value}
    (h : table.isFinite = true) (hvalue : value.isFinite = true) :
    (table.insert name value).isFinite = true := by
  refine isFinite_iff.2 fun entry hentry => ?_
  rcases mem_insertEntry hentry with rfl | hentry
  · exact hvalue
  · exact isFinite_iff.1 h entry hentry

theorem isFinite_insertAll {entries : List (String × Value)}
    (hentries : ∀ entry ∈ entries, entry.2.isFinite = true) :
    ∀ table : Table Value, table.isFinite = true → (table.insertAll entries).isFinite = true := by
  induction entries with
  | nil => exact fun table h => h
  | cons entry rest ih =>
      obtain ⟨hentry, hrest⟩ := List.forall_mem_cons.1 hentries
      exact fun table h => ih hrest _ (isFinite_insert h hentry)

theorem isFinite_of_get? {table : Table Value} {name : String} {value : Value}
    (h : table.isFinite = true) (hget : table.get? name = some value) : value.isFinite = true := by
  obtain ⟨before, behind, hentries, -⟩ := List.lookup_eq_some_iff.1 hget
  refine isFinite_iff.1 h (name, value) ?_
  rw [hentries]
  exact List.mem_append_right _ List.mem_cons_self

end Table

namespace Script.Phrase

/-- A number literal is within the range of doubles. -/
def InRange : Phrase → Prop
  | .expr (.number value _) | .method (.number value _) => value.isFinite = true
  | _ => True

end Script.Phrase

variable {bindings scope bound : Table Value} {known last : Extraction}

theorem isFinite_literalValue {e : Expr} (h : Phrase.Everywhere Phrase.InRange (.expr e))
    {value : Value} (hvalue : literalValue? e = some value) : value.isFinite = true := by
  unfold literalValue? at hvalue
  split at hvalue
  · obtain rfl := Option.some.inj hvalue
    exact h.here
  case h_6 number numberSpan span =>
    obtain rfl := Option.some.inj hvalue
    have hnumber := (h.inside (.expr (.number number numberSpan)) List.mem_cons_self).here
    exact Number.isFinite_neg hnumber
  case h_7 => contradiction
  all_goals
    obtain rfl := Option.some.inj hvalue
    rfl

/-- The value that an expression gives to a variable is finite. -/
theorem isFinite_resolve (hbindings : bindings.isFinite = true) {e : Expr}
    (h : Phrase.Everywhere Phrase.InRange (.expr e)) : (resolve bindings e).isFinite = true := by
  unfold resolve
  cases hliteral : literalValue? e with
  | some value => exact isFinite_literalValue h hliteral
  | none =>
      rw [Option.getD_none]
      unfold resolveCompound
      split
      · split
        · rfl
        · rename_i name span hundefined
          cases hknown : knownValue? bindings name with
          | none => rfl
          | some value =>
              obtain ⟨hget, -⟩ := Option.filter_eq_some_iff.1 hknown
              exact Table.isFinite_of_get? hbindings hget
      · split
        · split
          · rename_i result hresult
            obtain ⟨-, hfinite⟩ := Option.filter_eq_some_iff.1 hresult
            exact hfinite
          · rfl
        · rfl
      · rfl

theorem isFinite_declaredValues (hscope : scope.isFinite = true) {declarator : Declarator}
    (h : Phrase.Everywhere Phrase.InRange (.declarator declarator)) :
    ∀ entry ∈ declaredValues scope declarator, entry.2.isFinite = true := by
  obtain ⟨target, init, span⟩ := declarator
  unfold declaredValues
  split
  · refine List.forall_mem_singleton.2 ?_
    cases init with
    | none => rfl
    | some init =>
        exact isFinite_resolve hscope
          (h.inside (.expr init) (List.mem_cons_of_mem _ List.mem_cons_self))
  · intro entry hentry
    obtain ⟨name, -, rfl⟩ := List.mem_map.1 hentry
    rfl

/-- The values that declarators bind are finite. -/
theorem isFinite_boundByAll {declarators : List Declarator}
    (h : ∀ declarator ∈ declarators, Phrase.Everywhere Phrase.InRange (.declarator declarator))
    (hscope : scope.isFinite = true) (hbound : bound.isFinite = true) :
    (boundByAll scope bound declarators).isFinite = true := by
  induction declarators generalizing scope bound with
  | nil => exact hbound
  | cons declarator rest ih =>
      obtain ⟨hdeclarator, hrest⟩ := List.forall_mem_cons.1 h
      have hvalues := isFinite_declaredValues hscope hdeclarator
      exact ih hrest (Table.isFinite_insertAll hvalues _ hscope)
        (Table.isFinite_insertAll hvalues _ hbound)

/-! ## Finite steps -/

theorem isFinite_bindingOf {target : Expr} {value : String → Value}
    (h : ∀ name, (value name).isFinite = true) : (bindingOf target value).isFinite = true := by
  unfold bindingOf
  split
  · exact Table.isFinite_insert rfl (h _)
  · rfl

theorem isFinite_classifyExpr (hknown : known.bindings.isFinite = true) (kind : NodeKind)
    {e : Expr} (h : Phrase.Everywhere Phrase.InRange (.expr e)) :
    (classifyExpr known kind e).boundVariables.isFinite = true := by
  unfold classifyExpr
  dsimp only
  split
  · rename_i op target value span
    refine isFinite_bindingOf fun name => ?_
    unfold assignedValue
    split
    · refine isFinite_resolve hknown (h.inside (.expr value) ?_)
      exact List.mem_cons_of_mem _ List.mem_cons_self
    · rfl
  · exact isFinite_bindingOf fun name => rfl
  · split
    · rename_i shape _
      cases shape <;> rfl
    · rfl

theorem isFinite_classifyStmt (hknown : known.bindings.isFinite = true) {stmt : Stmt}
    (h : Phrase.Everywhere Phrase.InRange (.stmt stmt)) :
    (classifyStmt known stmt).boundVariables.isFinite = true := by
  fun_induction classifyStmt known stmt with
  | case1 kind declarators span =>
      refine isFinite_boundByAll (fun declarator hdeclarator => ?_) hknown rfl
      exact h.inside (.declarator declarator) (List.mem_map_of_mem hdeclarator)
  | case17 label body span step ih => exact ih (h.inside (.stmt body) List.mem_cons_self)
  | case19 e span => exact isFinite_classifyExpr hknown _ (h.inside (.expr e) List.mem_cons_self)
  | _ => rfl

/-- The phrase that a node is. -/
def Node.phrase : Node → Phrase
  | .stmt value => .stmt value
  | .expr value => .expr value

theorem isFinite_classify (hknown : known.bindings.isFinite = true) (ancestry : List Ancestor)
    {node : Node} (h : node.phrase.Everywhere Phrase.InRange) :
    (classify known ancestry node).boundVariables.isFinite = true := by
  unfold classify
  rw [boundVariables_placedIn]
  cases node with
  | stmt value => exact isFinite_classifyStmt hknown h
  | expr value => exact isFinite_classifyExpr hknown _ h

/-! ## Finite walks -/

/-- All numbers that have been bound are finite. -/
structure Extraction.IsFinite (known : Extraction) : Prop where
  bindings : known.bindings.isFinite = true
  steps : ∀ step ∈ known.steps, step.boundVariables.isFinite = true

theorem Extraction.IsFinite.emit (hknown : known.IsFinite) (ancestry : List Ancestor) {node : Node}
    (h : node.phrase.Everywhere Phrase.InRange) : (known.emit ancestry node).IsFinite := by
  have hstep := isFinite_classify hknown.bindings ancestry h
  refine ⟨?_, List.forall_mem_append.2 ⟨hknown.steps, List.forall_mem_singleton.2 hstep⟩⟩
  exact Table.isFinite_insertAll (Table.isFinite_iff.1 hstep) _ hknown.bindings

theorem Site.phrase_of_due {site : Site} {functions : Table FunctionInfo} {node : Node}
    (h : site.due? functions = some node) : node.phrase = site.phrase := by
  cases site with
  | pattern value => contradiction
  | expr whole e =>
      cases whole with
      | true => contradiction
      | false =>
          obtain ⟨-, hnode⟩ := Option.ite_none_right_eq_some.1 h
          obtain rfl := Option.some.inj hnode
          rfl
  | stmt value =>
      cases value with
      | block | emptyStmt | labeled => contradiction
      | _ =>
          obtain rfl := Option.some.inj h
          rfl

theorem Extraction.IsFinite.visit (hknown : known.IsFinite) (ancestry : List Ancestor) {site : Site}
    (h : site.phrase.Everywhere Phrase.InRange) : (known.visit ancestry site).IsFinite := by
  unfold Extraction.visit
  dsimp only
  rw [functions_declareAll]
  split
  · rename_i node hdue
    have hdeclared : Extraction.IsFinite { known with
        functions := site.functions.foldl (fun table info => table.insert info.name info)
          known.functions } := ⟨hknown.bindings, hknown.steps⟩
    rw [← Site.phrase_of_due hdue] at h
    exact hdeclared.emit ancestry h
  · exact ⟨hknown.bindings, hknown.steps⟩

theorem Trail.isFinite {sites : List Site} (htrail : Trail sites known last)
    (hsites : ∀ site ∈ sites, site.phrase.Everywhere Phrase.InRange) (hknown : known.IsFinite) :
    last.IsFinite := by
  induction htrail with
  | nil known => exact hknown
  | @cons site rest known last ancestry _ ih =>
      obtain ⟨hsite, hrest⟩ := List.forall_mem_cons.1 hsites
      exact ih hrest (hknown.visit ancestry hsite)

/-- The steps of a program bind finite numbers if its literals are within range. -/
theorem isFinite_extract {program : Program} (h : program.Everywhere Phrase.InRange) :
    (extract program).IsFinite := by
  obtain ⟨visited, hvisited, -, htrail⟩ := walked_extract program
  refine htrail.isFinite (fun site hsite => ?_) ⟨rfl, by simp [Extraction.empty]⟩
  have hmem := hvisited.subset hsite
  rw [Program.sites, sitesOfStmts_eq] at hmem
  obtain ⟨phrase, hphrase, hmem⟩ := List.mem_flatMap.1 hmem
  obtain ⟨stmt, hstmt, rfl⟩ := List.mem_map.1 hphrase
  refine (h stmt hstmt).sites (fun function hfunction => ?_) site hmem
  cases function <;> exact hfunction

/-- All number literals of a text are within the range of doubles, if it is a script. -/
def NumbersInRange (source : String) : Prop :=
  ∀ program, parse source = .ok program → program.Everywhere Phrase.InRange

theorem isFinite_stepsOf {source : String} (h : NumbersInRange source) :
    ∀ step ∈ stepsOf source, step.boundVariables.isFinite = true := by
  unfold stepsOf extractSource
  split
  · rename_i program hparse
    exact (isFinite_extract (h program hparse)).steps
  · exact List.forall_mem_singleton.2 rfl

/-- **Steps survive their records.**  The record of a step of a text reads back as that
step, unless its line is beyond the integers of records or it binds a number that is not
finite; and it binds none if the number literals of the text are within the range of
doubles. -/
theorem record_stepsOf (source : String) :
    (∀ step ∈ stepsOf source, Step.ofJson? step.toJson =
      if step.sourceLine ≤ Step.maxRecordInt ∧ step.boundVariables.isFinite then some step
      else none) ∧
    (NumbersInRange source → source.toList.count '\n' < Step.maxRecordInt →
      ∀ step ∈ stepsOf source, Step.ofJson? step.toJson = some step) := by
  have hexact : ∀ step ∈ stepsOf source, Step.ofJson? step.toJson =
      if step.sourceLine ≤ Step.maxRecordInt ∧ step.boundVariables.isFinite then some step
      else none := by
    intro step hstep
    rw [Step.ofJson?_toJson, Step.isRecordable_stepsOf hstep]
    simp only [Bool.and_eq_true, decide_eq_true_eq]
  refine ⟨hexact, fun hrange hcount step hstep => ?_⟩
  have hline := ((sourceLine_stepsOf source).2 _ (List.mem_map_of_mem hstep)).2
  rw [hexact step hstep, if_pos ⟨by omega, isFinite_stepsOf hrange step hstep⟩]

/-- A number and its name, if a script says no more than that. -/
def numberOf? (source : String) : Option (String × Float) :=
  match parse source with
  | .ok ⟨[.declare _ [.mk (.ident name _) (some (.number value _)) _] _], _⟩ => some (name, value)
  | _ => none

/-- The number of a declaration is the only one of the script. -/
theorem numbersInRange_of_numberOf? {source name : String} {value : Float}
    (h : numberOf? source = some (name, value)) (hvalue : value.isFinite = true) :
    NumbersInRange source := by
  unfold numberOf? at h
  split at h
  · rename_i kind target targetSpan number numberSpan span whole range hparse
    obtain ⟨rfl, rfl⟩ := Prod.mk.inj (Option.some.inj h)
    intro program hprogram
    obtain rfl := Except.ok.inj (hparse.symm.trans hprogram)
    refine List.forall_mem_singleton.2 (.intro trivial (List.forall_mem_singleton.2 ?_))
    refine .intro trivial (List.forall_mem_cons.2 ⟨?_, List.forall_mem_singleton.2 ?_⟩)
    · exact .intro trivial (List.forall_mem_nil _)
    · exact .intro hvalue (List.forall_mem_nil _)
  · contradiction

/-- The largest double is within range, and a step that binds it survives. -/
theorem record_stepsOf_largest :
    let source := "let a = 1.7976931348623157e308"
    NumbersInRange source ∧ ∀ step ∈ stepsOf source, Step.ofJson? step.toJson = some step := by
  intro source
  have hsome : (numberOf? source).isSome = true := by decide +kernel
  obtain ⟨⟨name, value⟩, hnumber⟩ := Option.isSome_iff_exists.1 hsome
  have hfinite : (numberOf? source).all (fun found => found.2.isFinite) = true := by
    decide +kernel
  rw [hnumber] at hfinite
  have hrange := numbersInRange_of_numberOf? hnumber hfinite
  exact ⟨hrange, (record_stepsOf source).2 hrange (by decide +kernel)⟩

/-- A number literal beyond the range of doubles makes a step that does not survive. -/
theorem infinite_lost :
    ¬ ∀ source, ∀ step ∈ stepsOf source, Step.ofJson? step.toJson = some step := by
  intro hall
  have hlost : ((stepsOf "let a = 1e999").all Step.isRecordable) = false := by decide +kernel
  refine Bool.eq_false_iff.1 hlost (List.all_eq_true.2 fun step hstep => ?_)
  have hstep := hall _ step hstep
  rw [Step.ofJson?_toJson] at hstep
  exact (Option.ite_none_right_eq_some.1 hstep).1

end EventLoop
