import EventLoop.Proofs.Script.Flatten
import EventLoop.Proofs.Script.WellShaped
import EventLoop.Proofs.Step.Face
import EventLoop.Proofs.Step.Walk

/-!
# Steps of flat programs

Blocks, empty statements and labels make no steps, and what they hold is walked as if it stood in
their place: they are no ancestors of it.  So flattening a program changes nothing of its steps,
functions and values (`extract_flatten`).  The statements that make steps keep their faces and
lines, and walks that start with the same knowledge keep it the same, function by function of the
walk.
-/

namespace EventLoop

open Script

/-! ## Steps -/

section Emitting

variable {known later : Extraction}

/-- A statement makes the same step after flattening. -/
theorem emit_stmt_flatten (h : later = known) (ancestry : List Ancestor) (stmt : Stmt)
    (hstmt : stmt.isTransparent = false) :
    later.emit ancestry (.stmt stmt.flatten) = known.emit ancestry (.stmt stmt) := by
  have hline : stmt.flatten.stepLine = stmt.stepLine := by
    cases stmt with
    | block body span | emptyStmt span | labeled label body span => contradiction
    | exprStmt e span => exact congrArg Span.line e.span_flatten
    | _ => rfl
  have hstep : classifyStmt known stmt.flatten = classifyStmt known stmt := by
    rw [classifyStmt_face, Stmt.face_flatten hstmt, hline, ← classifyStmt_face]
  rw [h]
  exact congrArg (fun step => known.push (step.placedIn ancestry)) hstep

/-- An expression makes the same step after flattening. -/
theorem emit_expr_flatten (ancestry : List Ancestor) (e : Expr) :
    known.emit ancestry (.expr e.flatten) = known.emit ancestry (.expr e) := by
  have hkind : kindOfExpr e.flatten = kindOfExpr e := by
    rw [← kindOfExpr_face, e.face_flatten, kindOfExpr_face]
  have hstep (kind : NodeKind) : classifyExpr known kind e.flatten = classifyExpr known kind e := by
    rw [classifyExpr_face, e.face_flatten, e.span_flatten, ← classifyExpr_face]
  unfold Extraction.emit classify
  dsimp only
  rw [hkind, hstep]

theorem emitNested_flatten (h : later = known) (ancestry : List Ancestor) (e : Expr) :
    later.emitNested ancestry e.flatten = known.emitNested ancestry e := by
  rw [h, Extraction.emitNested, ← nestedAction?_face, e.face_flatten, nestedAction?_face,
    emit_expr_flatten, Extraction.emitNested]

theorem callbackOwner_flatten (callee : Expr) :
    callbackOwner callee.flatten = callbackOwner callee := by
  rw [← callbackOwner_face, callee.face_flatten, callbackOwner_face]

theorem declareFunction_flatten (h : later = known) (name : String) (params : List Pattern)
    (isAsync : Bool) (span : Span) :
    later.declare (functionInfo name (flattenPatterns params) isAsync span) =
      known.declare (functionInfo name params isAsync span) := by
  rw [h, functionInfo, ← renderPatterns_face, facePatterns_flatten, renderPatterns_face,
    functionInfo]

theorem declareFunctions_flatten (h : later = known) (declarators : List Declarator) :
    declareFunctions later (flattenDeclarators declarators) =
      declareFunctions known declarators := by
  induction declarators generalizing known later with
  | nil => exact h
  | cons declarator rest ih =>
      obtain ⟨target, init, span⟩ := declarator
      refine ih ?_
      dsimp only [Declarator.flatten, Declarator.target, Declarator.init, Declarator.span]
      rw [Pattern.name?_flatten]
      cases target.name? with
      | none => exact h
      | some name =>
          cases init with
          | none => exact h
          | some e =>
              cases e with
              | function _ params isAsync _ _ _ =>
                  exact declareFunction_flatten h name params isAsync span
              | _ => exact h

/-- The values of expressions that are functions are walked as their bodies. -/
theorem walkValue_flatten {ancestry inner : List Ancestor} {e : Expr}
    (hexpr : walkExpr ancestry false e.flatten later = walkExpr ancestry false e known)
    (hbody : ∀ body ∈ functionBody? e,
      walkBody inner body.flatten later = walkBody inner body known) :
    walkValue ancestry inner e.flatten later = walkValue ancestry inner e known := by
  have hflatten : functionBody? e.flatten = (functionBody? e).map FunctionBody.flatten := by
    cases e <;> rfl
  unfold walkValue
  rw [hflatten]
  cases hbody? : functionBody? e with
  | none => exact hexpr
  | some body => exact hbody body hbody?

end Emitting

/-! ## Walks -/

theorem walkStmts_append (ancestry : List Ancestor) (first rest : List Stmt)
    (known : Extraction) :
    walkStmts ancestry (first ++ rest) known =
      walkStmts ancestry rest (walkStmts ancestry first known) := by
  induction first generalizing known with
  | nil => rfl
  | cons stmt first ih => exact ih (walkStmt ancestry stmt known)

/-- Blocks and empty statements are walked as what they hold. -/
theorem walkStmts_inlined (ancestry : List Ancestor) (stmt : Stmt) (known : Extraction) :
    walkStmts ancestry stmt.inlined known = walkStmt ancestry stmt known := by
  cases stmt <;> rfl

mutual

theorem walkStmt_flatten (ancestry : List Ancestor) (stmt : Stmt)
    {known later : Extraction} (h : later = known) :
    walkStmt ancestry stmt.flatten later = walkStmt ancestry stmt known := by
  -- where a statement makes a step, this is what is known behind it
  have hemit (hstmt : stmt.isTransparent = false) := emit_stmt_flatten h ancestry stmt hstmt
  match stmt with
  | .block body _ => exact walkStmts_flatten ancestry body h
  | .emptyStmt _ => exact h
  | .labeled _ body _ => exact walkStmt_flatten ancestry body h
  | .breakStmt _ | .continueStmt _ | .unknown _ _ => exact hemit rfl
  | .declare kind declarators span =>
      have hdeclared := emit_stmt_flatten (declareFunctions_flatten h declarators) ancestry
        (.declare kind declarators span) rfl
      exact walkDeclarators_flatten ancestry declarators hdeclared
  | .functionDecl name params isAsync body span =>
      have hdeclared := emit_stmt_flatten (declareFunction_flatten h name params isAsync span)
        ancestry (.functionDecl name params isAsync body span) rfl
      exact walkStmt_flatten (.function name :: ancestry) body hdeclared
  | .ifStmt test thenBody elseBody span =>
      have htest := walkExpr_flatten ancestry false test (hemit rfl)
      have hthen := walkStmt_flatten (.conditional :: ancestry) thenBody htest
      have helse := walkStmt?_flatten (.conditional :: ancestry) elseBody hthen
      rw [Stmt.flatten, walkStmt_if, walkStmt_if]
      exact helse
  | .whileStmt test body span =>
      have htest := walkExpr_flatten ancestry false test (hemit rfl)
      exact walkStmt_flatten (.loop :: ancestry) body htest
  | .doWhileStmt body test span =>
      have hbody := walkStmt_flatten (.loop :: ancestry) body (hemit rfl)
      exact walkExpr_flatten ancestry false test hbody
  | .forStmt init test update body span =>
      have hinit := walkInit?_flatten ancestry init (hemit rfl)
      have htest := walkExpr?_flatten ancestry test hinit
      have hupdate := walkExpr?_flatten ancestry update htest
      rw [Stmt.flatten, walkStmt_for, walkStmt_for]
      exact walkStmt_flatten (.loop :: ancestry) body hupdate
  | .forEachStmt kind varKind binding collection body span =>
      have hcollection := walkExpr_flatten ancestry false collection (hemit rfl)
      exact walkStmt_flatten (.loop :: ancestry) body hcollection
  | .returnStmt value span =>
      rw [Stmt.flatten, walkStmt_return, walkStmt_return]
      exact walkExpr?_flatten ancestry value (hemit rfl)
  | .throwStmt value span => exact walkExpr_flatten ancestry false value (hemit rfl)
  | .tryStmt body catchVar catchBody finallyBody span =>
      have hbody := walkStmt_flatten (.tryBlock :: ancestry) body (hemit rfl)
      have hcatch := walkStmt?_flatten (.tryBlock :: ancestry) catchBody hbody
      rw [Stmt.flatten, walkStmt_try, walkStmt_try]
      exact walkStmt?_flatten (.tryBlock :: ancestry) finallyBody hcatch
  | .switchStmt discriminant cases span =>
      have hdiscriminant := walkExpr_flatten ancestry false discriminant (hemit rfl)
      exact walkCases_flatten (.conditional :: ancestry) cases hdiscriminant
  | .classDecl name superclass members span =>
      have hsuperclass := walkExpr?_flatten ancestry superclass (hemit rfl)
      rw [Stmt.flatten, walkStmt_class, walkStmt_class]
      exact walkMembers_flatten ancestry name members hsuperclass
  | .exprStmt e span => exact walkExpr_flatten ancestry true e (hemit rfl)

theorem walkStmt?_flatten (ancestry : List Ancestor) (stmt : Option Stmt)
    {known later : Extraction} (h : later = known) :
    walkOption (walkStmt ancestry) (flattenStmt? stmt) later =
      walkOption (walkStmt ancestry) stmt known := by
  match stmt with
  | none => exact h
  | some stmt => exact walkStmt_flatten ancestry stmt h

/-- The label that the start of a loop keeps is walked as its body. -/
theorem walkInit?_flatten (ancestry : List Ancestor) (init : Option Stmt)
    {known later : Extraction} (h : later = known) :
    walkOption (walkStmt ancestry) (flattenInit? init) later =
      walkOption (walkStmt ancestry) init known := by
  match init with
  | none => exact h
  | some stmt =>
      have hstmt := walkStmt_flatten ancestry stmt h
      cases stmt <;> exact hstmt

theorem walkStmts_flatten (ancestry : List Ancestor) (stmts : List Stmt)
    {known later : Extraction} (h : later = known) :
    walkStmts ancestry (flattenStmts stmts) later =
      walkStmts ancestry stmts known := by
  match stmts with
  | [] => exact h
  | stmt :: rest =>
      -- what stands in place of the statement is walked first, and then the rest
      rw [flattenStmts, walkStmts_append, walkStmts_inlined]
      exact walkStmts_flatten ancestry rest (walkStmt_flatten ancestry stmt h)

theorem walkDeclarators_flatten (ancestry : List Ancestor) (declarators : List Declarator)
    {known later : Extraction} (h : later = known) :
    walkDeclarators ancestry (flattenDeclarators declarators) later =
      walkDeclarators ancestry declarators known := by
  match declarators with
  | [] => exact h
  | .mk target none span :: rest =>
      exact walkDeclarators_flatten ancestry rest (walkDefaults_flatten ancestry target h)
  | .mk target (some init) span :: rest =>
      have hdefaults := walkDefaults_flatten ancestry target h
      have hinit := walkExpr_flatten ancestry false init hdefaults
      rw [flattenDeclarators, Declarator.flatten, flattenExpr?, walkDeclarators_some,
        walkDeclarators_some, Pattern.name?_flatten]
      cases target.name? with
      | none => exact walkDeclarators_flatten ancestry rest hinit
      | some name =>
          have hbody := walkFunction_flatten (.function name :: ancestry) init hdefaults
          exact walkDeclarators_flatten ancestry rest (walkValue_flatten hinit hbody)

theorem walkCases_flatten (ancestry : List Ancestor) (cases : List SwitchCase)
    {known later : Extraction} (h : later = known) :
    walkCases ancestry (flattenCases cases) later =
      walkCases ancestry cases known := by
  match cases with
  | [] => exact h
  | .mk test body span :: rest =>
      have htest := walkExpr?_flatten ancestry test h
      have hbody := walkStmts_flatten ancestry body htest
      rw [flattenCases, SwitchCase.flatten, walkCases_cons, walkCases_cons]
      exact walkCases_flatten ancestry rest hbody

theorem walkMembers_flatten (ancestry : List Ancestor) (className : String)
    (members : List ClassMember) {known later : Extraction} (h : later = known) :
    walkMembers ancestry className (flattenMembers members) later =
      walkMembers ancestry className members known := by
  match members with
  | [] => exact h
  | .method name isStatic function :: rest =>
      have hfunction := walkValue_flatten (walkExpr_flatten ancestry false function h)
        (walkFunction_flatten (.function (className ++ "." ++ name) :: ancestry) function h)
      rw [flattenMembers, ClassMember.flatten, walkMembers_method, walkMembers_method]
      exact walkMembers_flatten ancestry className rest hfunction
  | .field name isStatic value span :: rest =>
      have hvalue := walkExpr?_flatten ancestry value h
      rw [flattenMembers, ClassMember.flatten, walkMembers_field, walkMembers_field]
      exact walkMembers_flatten ancestry className rest hvalue

theorem walkDefaults_flatten (ancestry : List Ancestor) (pattern : Pattern)
    {known later : Extraction} (h : later = known) :
    walkDefaults ancestry pattern.flatten later =
      walkDefaults ancestry pattern known := by
  match pattern with
  | .ident _ _ => exact h
  | .array elements _ => exact walkElements_flatten ancestry elements h
  | .object properties _ => exact walkTargets_flatten ancestry properties h
  | .rest target _ => exact walkDefaults_flatten ancestry target h
  | .withDefault target value _ =>
      exact walkExpr_flatten ancestry false value (walkDefaults_flatten ancestry target h)

theorem walkElements_flatten (ancestry : List Ancestor) (elements : List (Option Pattern))
    {known later : Extraction} (h : later = known) :
    walkElements ancestry (flattenElements elements) later =
      walkElements ancestry elements known := by
  match elements with
  | [] => exact h
  | none :: rest => exact walkElements_flatten ancestry rest h
  | some element :: rest =>
      exact walkElements_flatten ancestry rest (walkDefaults_flatten ancestry element h)

theorem walkTargets_flatten (ancestry : List Ancestor) (properties : List (String × Pattern))
    {known later : Extraction} (h : later = known) :
    walkTargets ancestry (flattenTargets properties) later =
      walkTargets ancestry properties known := by
  match properties with
  | [] => exact h
  | (_, target) :: rest =>
      exact walkTargets_flatten ancestry rest (walkDefaults_flatten ancestry target h)

theorem walkBody_flatten (ancestry : List Ancestor) (body : FunctionBody)
    {known later : Extraction} (h : later = known) :
    walkBody ancestry body.flatten later = walkBody ancestry body known := by
  match body with
  | .block body => exact walkStmt_flatten ancestry body h
  | .expr value => exact walkExpr_flatten ancestry false value h

/-- The body of an expression that is a function is one of its parts. -/
theorem walkFunction_flatten (inner : List Ancestor) (e : Expr)
    {known later : Extraction} (h : later = known) :
    ∀ body ∈ functionBody? e,
      walkBody inner body.flatten later = walkBody inner body known := by
  cases e with
  | function name params isAsync isArrow body span =>
      intro other hother
      obtain rfl := Option.some.inj hother
      exact walkBody_flatten inner body h
  | _ => exact fun _ hother => nomatch hother

theorem walkExpr_flatten (ancestry : List Ancestor) (whole : Bool) (e : Expr)
    {known later : Extraction} (h : later = known) :
    walkExpr ancestry whole e.flatten later =
      walkExpr ancestry whole e known := by
  -- the expression of an expression statement has its step already
  have hemit : (if whole then later else later.emitNested ancestry e.flatten) =
      (if whole then known else known.emitNested ancestry e) := by
    cases whole with
    | true => exact h
    | false => exact emitNested_flatten h ancestry e
  match e with
  | .bool _ _ | .number _ _ | .string _ _ | .null _ | .regex _ _ _ | .ident _ _ => exact hemit
  | .template _ parts _ | .list parts _ | .sequence parts _ =>
      exact walkExprs_flatten ancestry parts hemit
  | .object parts _ => exact walkProperties_flatten ancestry parts hemit
  | .member inner _ _ _ _ | .await inner _ | .unary _ inner _ | .update _ _ inner _
  | .spread inner _ =>
      exact walkExpr_flatten ancestry false inner hemit
  | .index first second _ | .binary _ first second _ | .assign _ first second _ =>
      have hfirst := walkExpr_flatten ancestry false first hemit
      exact walkExpr_flatten ancestry false second hfirst
  | .call callee args _ | .construct callee args _ =>
      have hcallee := walkExpr_flatten ancestry false callee hemit
      refine (congrArg (walkArgs ancestry · _ _) (callbackOwner_flatten callee)).trans ?_
      exact walkArgs_flatten ancestry (callbackOwner callee) args hcallee
  | .function name params isAsync isArrow body span =>
      exact walkBody_flatten (.function (name.getD "anonymous") :: ancestry) body hemit
  | .ternary condition consequent alternate _ =>
      have hcondition := walkExpr_flatten ancestry false condition hemit
      have hconsequent := walkExpr_flatten ancestry false consequent hcondition
      exact walkExpr_flatten ancestry false alternate hconsequent

theorem walkExpr?_flatten (ancestry : List Ancestor) (e : Option Expr)
    {known later : Extraction} (h : later = known) :
    walkOption (walkExpr ancestry false) (flattenExpr? e) later =
      walkOption (walkExpr ancestry false) e known := by
  match e with
  | none => exact h
  | some e => exact walkExpr_flatten ancestry false e h

theorem walkExprs_flatten (ancestry : List Ancestor) (exprs : List Expr)
    {known later : Extraction} (h : later = known) :
    walkExprs ancestry (flattenExprs exprs) later =
      walkExprs ancestry exprs known := by
  match exprs with
  | [] => exact h
  | e :: rest => exact walkExprs_flatten ancestry rest (walkExpr_flatten ancestry false e h)

theorem walkProperties_flatten (ancestry : List Ancestor)
    (properties : List (String × Span × Expr))
    {known later : Extraction} (h : later = known) :
    walkProperties ancestry (flattenProperties properties) later =
      walkProperties ancestry properties known := by
  match properties with
  | [] => exact h
  | (_, _, value) :: rest =>
      exact walkProperties_flatten ancestry rest (walkExpr_flatten ancestry false value h)

theorem walkArgs_flatten (ancestry : List Ancestor) (owner : String) (args : List Expr)
    {known later : Extraction} (h : later = known) :
    walkArgs ancestry owner (flattenExprs args) later =
      walkArgs ancestry owner args known := by
  match args with
  | [] => exact h
  | arg :: rest =>
      have harg := walkValue_flatten (walkExpr_flatten ancestry false arg h)
        (walkFunction_flatten (.callback owner :: ancestry) arg h)
      rw [flattenExprs, walkArgs_cons, walkArgs_cons]
      exact walkArgs_flatten ancestry owner rest harg

end


/-! ## Programs -/

/-- A label at the start of a counting loop shows: the loop is described without its start. -/
example (start : Stmt) :
    renderInit (some (.labeled "a" start .zero)) = "" ∧
      renderInit (some (.exprStmt (.ident "i" .zero) .zero)) = "i" :=
  ⟨rfl, rfl⟩

end EventLoop
