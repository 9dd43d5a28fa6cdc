import EventLoop.Proofs.Script.Spread
import EventLoop.Proofs.Step.Codec
import EventLoop.Proofs.Step.Walk

/-!
# Declarations

A declaration of several variables comes to the same as the declarations of each of them, one
after the other (`walkStmts_declarations`).  There are two places where values are looked up:
a declaration looks into a scope of its own, which grows from declarator to declarator, and
declarations in sequence look into the table of all variables, which grows from step to step.

* **Tables.**  Adding entries is a union that prefers the entries added, and unions are
  associative, so it makes no difference how a row of declarators is cut.
* **Values.**  Where there is no function, what is walked behind a declaration are calls and
  awaits, and these bind and declare nothing (`Extraction.Adds`).
-/

namespace EventLoop

open Script

/-! ## What a declaration binds -/

theorem boundByAll_eq_union (declarators : List Declarator) :
    ∀ scope bound : Table Value,
      boundByAll scope bound declarators = bound.union (boundByAll scope .empty declarators) := by
  induction declarators with
  | nil => exact fun _ _ => rfl
  | cons declarator rest ih =>
      intro scope bound
      rw [boundByAll, boundByAll, ih _ (bound.insertAll _), ih _ (Table.insertAll .empty _),
        Table.insertAll_eq_union bound, Table.union_assoc]
      rfl

/-- Of the declarators of a declaration, those behind the first one see what it binds. -/
theorem boundByAll_cons (scope : Table Value) (declarator : Declarator)
    (rest : List Declarator) :
    boundByAll scope .empty (declarator :: rest) =
      (boundByAll scope .empty [declarator]).union
        (boundByAll (scope.union (boundByAll scope .empty [declarator])) .empty rest) := by
  rw [boundByAll, boundByAll_eq_union, Table.insertAll_eq_union scope]
  rfl

/-! ## Walks that only add steps -/

/-- Steps are added, and neither functions nor values. -/
structure Extraction.Adds (known last : Extraction) : Prop where
  steps : known.steps <+: last.steps
  functions_eq : last.functions = known.functions
  bindings_eq : last.bindings = known.bindings

namespace Extraction.Adds

variable {known middle last : Extraction}

theorem refl (known : Extraction) : known.Adds known :=
  ⟨List.prefix_rfl, rfl, rfl⟩

theorem trans (h : known.Adds middle) (hlast : middle.Adds last) : known.Adds last :=
  ⟨h.steps.trans hlast.steps, hlast.functions_eq.trans h.functions_eq,
    hlast.bindings_eq.trans h.bindings_eq⟩

end Extraction.Adds

theorem boundVariables_callStep (shape : CallShape) (known : Extraction) (kind : NodeKind)
    (e : Expr) : (shape.step known kind e).boundVariables = .empty := by
  cases shape <;> rfl

/-- What deserves a step inside a statement binds nothing. -/
theorem boundVariables_nested {known : Extraction} {e : Expr}
    (h : (nestedAction? known e).isSome = true) (ancestry : List Ancestor) :
    (classify known ancestry (.expr e)).boundVariables = .empty := by
  unfold classify
  rw [boundVariables_placedIn]
  cases e with
  | call | construct | await =>
      unfold classifyExpr
      dsimp only
      split
      · exact boundVariables_callStep _ known _ _
      · rfl
  | _ => exact absurd h Bool.false_ne_true

theorem adds_emitNested (known : Extraction) (ancestry : List Ancestor) (e : Expr) :
    known.Adds (known.emitNested ancestry e) := by
  unfold Extraction.emitNested
  split
  · rename_i h
    refine ⟨List.prefix_append _ _, rfl, ?_⟩
    change known.bindings.union (classify known ancestry (.expr e)).boundVariables = known.bindings
    rw [boundVariables_nested h, Table.union_empty]
  · exact .refl known

namespace Script.Phrase

/-- A phrase is no function. -/
def NotFunction : Phrase → Prop
  | .expr (.function _ _ _ _ _ _) | .method _ => False
  | _ => True

/-- A phrase is an expression, a pattern or a declarator. -/
def IsValue : Phrase → Prop
  | .expr _ | .method _ | .pattern _ | .declarator _ => True
  | .stmt _ | .switchCase _ | .member _ => False

theorem isValue_ofProperty (keySpan : Span) (e : Expr) : (ofProperty keySpan e).IsValue := by
  unfold ofProperty
  split
  · dsimp only
    split <;> trivial
  · trivial

/-- There are no statements in an expression but in the bodies of functions. -/
theorem isValue_of_mem_children {phrase child : Phrase} (hvalue : phrase.IsValue)
    (hfunction : phrase.NotFunction) (hchild : child ∈ phrase.children) : child.IsValue := by
  revert child
  change ∀ child ∈ phrase.children, child.IsValue
  cases phrase with
  | stmt | switchCase | member => exact hvalue.elim
  | method => exact hfunction.elim
  | expr e =>
      cases e with
      | function => exact hfunction.elim
      | object properties span =>
          exact List.forall_mem_map.2 fun property _ => isValue_ofProperty property.2.1 property.2.2
      | _ => simp [children, childrenOfExpr, IsValue]
  | pattern pattern =>
      cases pattern with
      | array elements span =>
          intro child hchild
          obtain ⟨element, -, hmem⟩ := List.mem_flatMap.1 hchild
          obtain ⟨target, -, rfl⟩ := List.mem_map.1 hmem
          trivial
      | object properties span => exact List.forall_mem_map.2 fun _ _ => trivial
      | _ => simp [children, childrenOfPattern, IsValue]
  | declarator declarator =>
      obtain ⟨target, init, span⟩ := declarator
      simp [children, IsValue]

end Script.Phrase

/-- A site is a pattern, or an expression inside another one. -/
def Site.IsValue : Site → Prop
  | .expr false _ | .pattern _ => True
  | .expr true _ | .stmt _ => False

/-- Where there is no function, there are no sites of statements in a value. -/
theorem Script.Phrase.Everywhere.onlyValues {phrase : Phrase}
    (h : phrase.Everywhere Phrase.NotFunction) (hvalue : phrase.IsValue) :
    ∀ site ∈ phrase.sites, site.IsValue := by
  induction h with
  | @intro phrase here inside ih =>
      rw [phrase.sites_eq fun e span heq => by rw [heq] at hvalue; exact hvalue]
      refine List.forall_mem_append.2 ⟨fun site hsite => ?_, fun site hsite => ?_⟩
      · cases phrase with
        | expr | method | pattern =>
            obtain rfl := Option.some.inj (Option.mem_toList.1 hsite)
            trivial
        | stmt => exact hvalue.elim
        | declarator | switchCase | member => exact absurd hsite List.not_mem_nil
      · obtain ⟨child, hchild, hmem⟩ := List.mem_flatMap.1 hsite
        exact ih child hchild (Phrase.isValue_of_mem_children hvalue here hchild) site hmem

theorem Trail.adds {sites : List Site} {known last : Extraction} (h : Trail sites known last)
    (hsites : ∀ site ∈ sites, site.IsValue) : known.Adds last := by
  induction h with
  | nil known => exact .refl known
  | @cons site rest known last ancestry _ ih =>
      obtain ⟨hsite, hrest⟩ := List.forall_mem_cons.1 hsites
      refine Extraction.Adds.trans ?_ (ih hrest)
      match site, hsite with
      | .expr false e, _ =>
          rw [known.visit_expr ancestry e]
          exact adds_emitNested known ancestry e
      | .pattern pattern, _ => exact .refl known

/-! ## Declarations without functions -/

section Declarations

variable {declarators : List Declarator}
  (hnone : ∀ declarator ∈ declarators,
    (Phrase.declarator declarator).Everywhere Phrase.NotFunction)

include hnone

theorem adds_walkDeclarators (ancestry : List Ancestor) (known : Extraction) :
    known.Adds (walkDeclarators ancestry declarators known) := by
  obtain ⟨visited, hcovers, htrail⟩ := Toured.declarators ancestry declarators known
  refine htrail.adds fun site hsite => ?_
  have hmem := hcovers.sublist.subset hsite
  rw [sitesOfDeclarators_eq] at hmem
  obtain ⟨phrase, hphrase, hmem⟩ := List.mem_flatMap.1 hmem
  obtain ⟨declarator, hdeclarator, rfl⟩ := List.mem_map.1 hphrase
  exact (hnone declarator hdeclarator).onlyValues trivial site hmem

theorem declareFunctions_eq_self (known : Extraction) :
    declareFunctions known declarators = known := by
  have hfunctions : declarators.filterMap Site.functionOf? = [] := by
    refine List.filterMap_eq_nil_iff.2 fun declarator hdeclarator => ?_
    have hinside := (hnone declarator hdeclarator).inside
    obtain ⟨target, init, span⟩ := declarator
    unfold Site.functionOf?
    dsimp only [Declarator.target, Declarator.init]
    cases init with
    | none => cases target.name? <;> rfl
    | some e =>
        have hfunction := (hinside (.expr e) (List.mem_cons_of_mem _ List.mem_cons_self)).here
        cases e with
        | function => exact hfunction.elim
        | _ => cases target.name? <;> rfl
  rw [declareFunctions_eq, hfunctions]
  rfl

/-- What a declaration comes to: it makes a step of its own first, whose values are bound from then
on, and steps that bind nothing behind it. -/
theorem walkStmt_declaration (ancestry : List Ancestor) (kind : VarKind) (span : Span)
    (known : Extraction) :
    let last := walkStmt ancestry (.declare kind declarators span) known
    let step := classify known ancestry (.stmt (.declare kind declarators span))
    known.steps ++ [step] <+: last.steps ∧
      step.boundVariables = boundByAll known.bindings .empty declarators ∧
      last.functions = known.functions ∧
      last.bindings = known.bindings.union step.boundVariables := by
  intro last step
  have hadds : (known.push step).Adds last := by
    have hdeclared := declareFunctions_eq_self hnone known
    change (known.push step).Adds (walkDeclarators ancestry declarators
      ((declareFunctions known declarators).emit ancestry (.stmt (.declare kind declarators span))))
    rw [hdeclared]
    exact adds_walkDeclarators hnone ancestry _
  refine ⟨hadds.steps, ?_, hadds.functions_eq, hadds.bindings_eq⟩
  exact boundVariables_placedIn _ ancestry

end Declarations

/-! ## Declarations in sequence -/

/-- The step that a statement makes of itself: the first one behind those that are known before. -/
def ownStep? (ancestry : List Ancestor) (known : Extraction) (stmt : Stmt) : Option Step :=
  (walkStmt ancestry stmt known).steps[known.steps.length]?

/-- The steps that statements make of themselves, each of them with what is known behind those
before it. -/
def ownSteps (ancestry : List Ancestor) (known : Extraction) : List Stmt → List Step
  | [] => []
  | stmt :: rest =>
    (ownStep? ancestry known stmt).toList ++ ownSteps ancestry (walkStmt ancestry stmt known) rest

/-- All that steps bind, where the last one of those that bind a name counts. -/
def boundBySteps (steps : List Step) : Table Value :=
  steps.foldl (fun table step => table.union step.boundVariables) .empty

theorem boundBySteps_cons (step : Step) (rest : List Step) :
    boundBySteps (step :: rest) = step.boundVariables.union (boundBySteps rest) := by
  have hfrom (steps : List Step) : ∀ table : Table Value,
      steps.foldl (fun table step => table.union step.boundVariables) table =
        table.union (boundBySteps steps) := by
    induction steps with
    | nil => exact fun _ => rfl
    | cons first steps ih =>
        intro table
        rw [boundBySteps, List.foldl_cons, List.foldl_cons, ih, ih (Table.union _ _),
          Table.union_assoc, Table.empty_union]
  rw [boundBySteps, List.foldl_cons, hfrom, Table.empty_union]

/-- The declarations of single variables, each with a span. -/
def singleDeclarations (kind : VarKind) (parts : List (Declarator × Span)) : List Stmt :=
  parts.map fun part => .declare kind [part.1] part.2

theorem ownStep?_declaration {declarators : List Declarator}
    (hnone : ∀ declarator ∈ declarators,
      (Phrase.declarator declarator).Everywhere Phrase.NotFunction)
    (ancestry : List Ancestor) (kind : VarKind) (span : Span) (known : Extraction) :
    ownStep? ancestry known (.declare kind declarators span) =
      some (classify known ancestry (.stmt (.declare kind declarators span))) := by
  obtain ⟨⟨rest, hrest⟩, -⟩ := walkStmt_declaration hnone ancestry kind span known
  rw [ownStep?, ← hrest, List.append_assoc, List.getElem?_append_right (Nat.le_refl _),
    Nat.sub_self]
  rfl

/-- What declarations of single variables come to. -/
theorem walkStmts_singleDeclarations (ancestry : List Ancestor) (kind : VarKind)
    {parts : List (Declarator × Span)}
    (hnone : ∀ part ∈ parts, (Phrase.declarator part.1).Everywhere Phrase.NotFunction) :
    ∀ known : Extraction,
      let last := walkStmts ancestry (singleDeclarations kind parts) known
      let steps := ownSteps ancestry known (singleDeclarations kind parts)
      steps.length = parts.length ∧
        boundBySteps steps = boundByAll known.bindings .empty (parts.map Prod.fst) ∧
        last.functions = known.functions ∧
        last.bindings = known.bindings.union (boundBySteps steps) := by
  induction parts with
  | nil => exact fun known => ⟨rfl, rfl, rfl, rfl⟩
  | cons part rest ih =>
      intro known
      obtain ⟨hpart, hrest⟩ := List.forall_mem_cons.1 hnone
      have hsingle : ∀ declarator ∈ [part.1],
          (Phrase.declarator declarator).Everywhere Phrase.NotFunction :=
        List.forall_mem_singleton.2 hpart
      obtain ⟨-, hbound, hfunctions, hbindings⟩ :=
        walkStmt_declaration hsingle ancestry kind part.2 known
      obtain ⟨hlength, hboundRest, hfunctionsRest, hbindingsRest⟩ :=
        ih hrest (walkStmt ancestry (.declare kind [part.1] part.2) known)
      have hsteps : ownSteps ancestry known (singleDeclarations kind (part :: rest)) =
          classify known ancestry (.stmt (.declare kind [part.1] part.2)) ::
            ownSteps ancestry (walkStmt ancestry (.declare kind [part.1] part.2) known)
              (singleDeclarations kind rest) := by
        rw [singleDeclarations, List.map_cons, ownSteps, ownStep?_declaration hsingle]
        rfl
      dsimp only
      rw [hsteps, boundBySteps_cons]
      refine ⟨?_, ?_, hfunctionsRest.trans hfunctions, ?_⟩
      · rw [List.length_cons, List.length_cons, hlength]
      · rw [hboundRest, hbindings, hbound, List.map_cons, boundByAll_cons _ _ (rest.map Prod.fst)]
      · rw [← Table.union_assoc, ← hbindings]
        exact hbindingsRest

/-- **A declaration is its declarators in sequence.**  Where there are no functions in the initial
values and the defaults of declarators, walking their declaration and walking a declaration for
each of them in turn leads to the same variables and the same functions.  The step of the one
declaration binds what the steps of the others bind together, where the last one of those that
bind a name counts. -/
theorem walkStmts_declarations (ancestry : List Ancestor) (kind : VarKind) (span : Span)
    (parts : List (Declarator × Span)) (known : Extraction)
    (h : ∀ part ∈ parts, (Phrase.declarator part.1).Everywhere Phrase.NotFunction) :
    let whole := Stmt.declare kind (parts.map Prod.fst) span
    let singles := parts.map fun part => Stmt.declare kind [part.1] part.2
    let atOnce := walkStmt ancestry whole known
    let inTurn := walkStmts ancestry singles known
    atOnce.bindings = inTurn.bindings ∧ atOnce.functions = inTurn.functions ∧
      ∃ step, ownStep? ancestry known whole = some step ∧
        (ownSteps ancestry known singles).length = parts.length ∧
        step.boundVariables = boundBySteps (ownSteps ancestry known singles) := by
  intro whole singles atOnce inTurn
  have hall : ∀ declarator ∈ parts.map Prod.fst,
      (Phrase.declarator declarator).Everywhere Phrase.NotFunction :=
    List.forall_mem_map.2 h
  obtain ⟨-, hbound, hfunctions, hbindings⟩ :=
    walkStmt_declaration hall ancestry kind span known
  obtain ⟨hlength, hboundSingles, hfunctionsSingles, hbindingsSingles⟩ :=
    walkStmts_singleDeclarations ancestry kind h known
  have hsame := hbound.trans hboundSingles.symm
  refine ⟨?_, hfunctions.trans hfunctionsSingles.symm, _,
    ownStep?_declaration hall ancestry kind span known, hlength, hsame⟩
  rw [hsame] at hbindings
  exact hbindings.trans hbindingsSingles.symm

/-- The declaration `let a = 1, [b = a] = f(a), a = b, c = a`: a name that is bound twice, names of
a pattern with a default value, names of earlier declarators, and a call between them. -/
theorem walkStmts_declarations_four :
    let span := Span.zero
    let name (text : String) := Expr.ident text span
    let target (text : String) := Pattern.ident text span
    let pattern := Pattern.array [some (.withDefault (target "b") (name "a") span)] span
    let parts : List (Declarator × Span) :=
      [(.mk (target "a") (some (.number 1 span)) span, span),
        (.mk pattern (some (.call (name "f") [name "a"] span)) span, span),
        (.mk (target "a") (some (name "b")) span, span),
        (.mk (target "c") (some (name "a")) span, span)]
    let whole := Stmt.declare .letVar (parts.map Prod.fst) span
    let singles := parts.map fun part => Stmt.declare .letVar [part.1] part.2
    let atOnce := walkStmt [] whole .empty
    let inTurn := walkStmts [] singles .empty
    (∀ part ∈ parts, (Phrase.declarator part.1).Everywhere Phrase.NotFunction) ∧
      atOnce.bindings = inTurn.bindings ∧ atOnce.functions = inTurn.functions ∧
      ∃ step, ownStep? [] .empty whole = some step ∧
        (ownSteps [] .empty singles).length = parts.length ∧
        step.boundVariables = boundBySteps (ownSteps [] .empty singles) := by
  intro span name target pattern parts
  have hleaf {phrase : Phrase} (hchildren : phrase.children = []) (h : phrase.NotFunction) :
      phrase.Everywhere Phrase.NotFunction :=
    .intro h (by simp [hchildren])
  have hname (text : String) : (Phrase.expr (name text)).Everywhere Phrase.NotFunction :=
    hleaf rfl trivial
  have htarget (text : String) : (Phrase.pattern (target text)).Everywhere Phrase.NotFunction :=
    hleaf rfl trivial
  have hdefault : (Phrase.pattern (.withDefault (target "b") (name "a") span)).Everywhere
      Phrase.NotFunction :=
    .intro trivial (by simpa [Phrase.children, Phrase.childrenOfPattern] using ⟨htarget _, hname _⟩)
  have hpattern : (Phrase.pattern pattern).Everywhere Phrase.NotFunction :=
    .intro trivial (by simpa [pattern, Phrase.children, Phrase.childrenOfPattern] using hdefault)
  have hcall : (Phrase.expr (.call (name "f") [name "a"] span)).Everywhere Phrase.NotFunction :=
    .intro trivial (by simpa [Phrase.children, Phrase.childrenOfExpr] using ⟨hname _, hname _⟩)
  have hdeclarator {target : Pattern} {e : Expr}
      (htarget : (Phrase.pattern target).Everywhere Phrase.NotFunction)
      (he : (Phrase.expr e).Everywhere Phrase.NotFunction) :
      (Phrase.declarator (.mk target (some e) span)).Everywhere Phrase.NotFunction :=
    .intro trivial (by simpa [Phrase.children] using ⟨htarget, he⟩)
  have hparts : ∀ part ∈ parts, (Phrase.declarator part.1).Everywhere Phrase.NotFunction := by
    simp only [parts, List.forall_mem_cons]
    exact ⟨hdeclarator (htarget _) (hleaf rfl trivial), hdeclarator hpattern hcall,
      hdeclarator (htarget _) (hname _), hdeclarator (htarget _) (hname _), by simp⟩
  exact ⟨hparts, walkStmts_declarations [] .letVar span parts .empty hparts⟩

end EventLoop
