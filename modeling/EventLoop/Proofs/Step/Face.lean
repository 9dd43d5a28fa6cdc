import EventLoop.Proofs.Script.Face
import EventLoop.Step.Extract

/-!
# Steps by faces

What an expression is worth, what a call is about and how a step is described depend on faces
only, so that a node gives the same step as its face but for the line (`classifyStmt_face`,
`classifyExpr_face`).
-/

namespace EventLoop

open Script

/-! ## Values -/

section Values

variable (bindings : Table Value)

@[simp]
theorem literalValue?_face (e : Expr) : literalValue? e.face = literalValue? e := by
  cases e with
  | template pieces exprs span => cases exprs <;> rfl
  | unary op operand span => cases op <;> cases operand <;> rfl
  | _ => rfl

@[simp]
theorem literalNumber?_face (e : Expr) : literalNumber? e.face = literalNumber? e := by
  rw [literalNumber?, literalValue?_face, literalNumber?]

theorem resolveCompound_face (e : Expr) :
    resolveCompound bindings e.face = resolveCompound bindings e := by
  cases e with
  | ident name span => rfl
  | binary op left right span =>
      have hrender := Expr.render_face (.binary op left right span)
      rw [Expr.face] at hrender ⊢
      rw [resolveCompound, resolveCompound, literalNumber?_face, literalNumber?_face, hrender]
  | _ => exact congrArg Value.unresolved (Expr.render_face _)

@[simp]
theorem resolve_face (e : Expr) : resolve bindings e.face = resolve bindings e := by
  rw [resolve, literalValue?_face, resolveCompound_face, resolve]

mutual

theorem displayArg_face (e : Expr) : displayArg bindings e.face = displayArg bindings e := by
  -- what is neither a template nor a name is printed as its value, or else as it is written
  have hvalue :
      (match literalValue? e.face with
        | some value => value.display
        | none => e.face.render) =
      match literalValue? e with
        | some value => value.display
        | none => e.render := by
    rw [literalValue?_face, Expr.render_face]
  cases e with
  | template pieces exprs span => exact displayPieces_face pieces exprs
  | ident name span => rfl
  | _ => exact hvalue

theorem displayPieces_face (pieces : List String) (exprs : List Expr) :
    displayPieces bindings pieces (faceExprs exprs) = displayPieces bindings pieces exprs := by
  match pieces, exprs with
  | [], _ => rw [displayPieces, displayPieces]
  | piece :: pieces, [] => rfl
  | piece :: pieces, e :: rest =>
      rw [faceExprs, displayPieces, displayArg_face e, displayPieces_face pieces rest,
        displayPieces]

end

@[simp]
theorem consoleText_face (args : List Expr) :
    consoleText bindings (faceExprs args) = consoleText bindings args := by
  rw [consoleText, faceExprs_eq, List.map_map, consoleText]
  exact congrArg (fun display => " ".intercalate (args.map display))
    (funext (displayArg_face bindings))

@[simp]
theorem timerDelayMs_face (args : List Expr) :
    timerDelayMs bindings (faceExprs args) = timerDelayMs bindings args := by
  have hnumber : delayNumber? bindings (faceExprs args) = delayNumber? bindings args := by
    unfold delayNumber?
    rw [faceExprs_eq, List.getElem?_map]
    cases args[1]? with
    | none => rfl
    | some e =>
        have hliteral := literalNumber?_face e
        cases e with
        | ident name span => rfl
        | _ => exact hliteral
  rw [timerDelayMs, hnumber, timerDelayMs]

end Values

/-! ## Calls -/

section Calls

variable (known : Extraction)

theorem isContinuation_face (e : Expr) : isContinuation e.face = isContinuation e := by
  cases e <;> rfl

@[simp]
theorem callShape?_face (e : Expr) : callShape? known e.face = callShape? known e := by
  cases e with
  | construct callee args span =>
      rw [Expr.face, callShape?, Expr.dottedName?_face, callShape?]
  | call callee args span =>
      rw [Expr.face, callShape?, isContinuation_face, Expr.dottedName?_face, callShape?]
  | _ => rfl

theorem nestedAction?_face (e : Expr) : nestedAction? known e.face = nestedAction? known e := by
  rw [nestedAction?, callShape?_face, nestedAction?]

@[simp]
theorem argsOfCall_face (e : Expr) : argsOfCall e.face = faceExprs (argsOfCall e) := by
  cases e <;> rfl

theorem callbackOwner_face (callee : Expr) : callbackOwner callee.face = callbackOwner callee := by
  unfold callbackOwner
  rw [Expr.dottedName?_face]
  cases callee with
  | member object property propertySpan isOptional span =>
      cases (Expr.member object property propertySpan isOptional span).dottedName? <;> rfl
  | _ => rfl

end Calls

/-! ## Steps -/

section Steps

/-- A step on another line. -/
def Step.onLine (step : Step) (sourceLine : Nat) : Step :=
  { step with sourceLine }

variable (known : Extraction)

theorem callStep_face (shape : CallShape) (kind : NodeKind) (e : Expr) :
    shape.step known kind e = (shape.step known kind e.face).onLine e.span.line := by
  -- the description of deferred work is the only one that looks into the expression
  have hdescription :
      (CallShape.deferred.step known kind e).description =
        (CallShape.deferred.step known kind e.face).description := by
    cases e with
    | await inner span => exact congrArg ("Await " ++ ·) inner.render_face.symm
    | _ => exact congrArg ("Queue deferred " ++ ·) (Expr.render_face _).symm
  cases shape with
  | deferred | await => exact congrArg (Step.mk kind _ · _ _ _ _ _ _ _) hdescription
  | _ => simp [CallShape.step, Step.onLine]

theorem assignedValue_face (op : AssignOp) (name : String) (value : Expr) :
    assignedValue known op name value.face = assignedValue known op name value := by
  rw [assignedValue, resolve_face, Expr.render_face, assignedValue]

@[simp]
theorem bindingOf_face (target : Expr) (value : String → Value) :
    bindingOf target.face value = bindingOf target value := by
  cases target <;> rfl

/-- An expression gives the step of its face, on its line. -/
theorem classifyExpr_face (kind : NodeKind) (e : Expr) :
    classifyExpr known kind e = (classifyExpr known kind e.face).onLine e.span.line := by
  have hrender := Expr.render_face e
  have hshape := callShape?_face known e
  have hstep (shape : CallShape) := callStep_face known shape kind e
  cases e with
  | assign op target value span =>
      simp only [classifyExpr, Expr.face] at hrender ⊢
      simp only [hrender, bindingOf_face, assignedValue_face, Step.onLine]
  | update op leading target span =>
      simp only [classifyExpr, Expr.face] at hrender ⊢
      simp only [hrender, bindingOf_face, Step.onLine]
  | _ =>
      -- what is no assignment is described by what it is about, or else as it is written
      rw [Expr.face] at hshape hrender ⊢
      unfold classifyExpr
      dsimp only
      rw [hshape, hrender]
      generalize callShape? known _ = shape?
      cases shape? with
      | none => rfl
      | some shape => exact hstep shape

theorem kindOfExpr_face (e : Expr) : kindOfExpr e.face = kindOfExpr e := by
  cases e <;> rfl

theorem declaredValues_face (scope : Table Value) (declarator : Declarator) :
    declaredValues scope declarator.face = declaredValues scope declarator := by
  have hrender := Declarator.render_face declarator
  obtain ⟨target, init, span⟩ := declarator
  rw [Declarator.face] at hrender ⊢
  unfold declaredValues Declarator.target
  dsimp only
  rw [Pattern.name?_face, Pattern.names_face, hrender]
  cases target.name? with
  | none => rfl
  | some name =>
      cases init with
      | none => rfl
      | some e => exact congrArg (fun value => [(name, value)]) (resolve_face scope e)

theorem boundByAll_face (declarators : List Declarator) :
    ∀ scope bound : Table Value, boundByAll scope bound (declarators.map Declarator.face) =
      boundByAll scope bound declarators := by
  induction declarators with
  | nil => exact fun _ _ => rfl
  | cons declarator rest ih =>
      intro scope bound
      rw [List.map_cons, boundByAll, declaredValues_face, ih, boundByAll]

@[simp]
theorem renderDeclaration_face (kind : VarKind) (declarators : List Declarator) :
    renderDeclaration kind (declarators.map Declarator.face) =
      renderDeclaration kind declarators := by
  rw [renderDeclaration, List.map_map, renderDeclaration]
  exact congrArg (fun render => kind.keyword ++ " " ++ commaSeparated (declarators.map render))
    (funext Declarator.render_face)

@[simp]
theorem renderInit_face (init : Option Stmt) :
    renderInit (Stmt.faceInit? init) = renderInit init := by
  cases init with
  | none => rfl
  | some stmt =>
      cases stmt with
      | declare kind declarators span => exact renderDeclaration_face kind declarators
      | exprStmt e span => exact Expr.render_face e
      | _ => rfl

@[simp]
theorem renderClause_face (e : Option Expr) : renderClause (e.map Expr.face) = renderClause e := by
  cases e with
  | none => rfl
  | some e => exact Expr.render_face e

@[simp]
theorem renderParams_face (params : List Pattern) :
    renderParams (facePatterns params) = renderParams params :=
  congrArg commaSeparated (renderPatterns_face params)

/-- The line of the step of a statement: an expression statement has that of the expression. -/
def Script.Stmt.stepLine : Stmt → Nat
  | .exprStmt e _ => e.span.line
  | .labeled _ body _ => body.stepLine
  | stmt => stmt.span.line

/-- A statement gives the step of its face, on its line. -/
theorem classifyStmt_face (stmt : Stmt) :
    classifyStmt known stmt = (classifyStmt known stmt.face).onLine stmt.stepLine := by
  match stmt with
  | .declare kind declarators span =>
      rw [Stmt.face, classifyStmt, classifyStmt, renderDeclaration_face, boundByAll_face]
      rfl
  | .functionDecl name params isAsync body span =>
      rw [Stmt.face, classifyStmt, classifyStmt, renderParams_face]
      rfl
  | .ifStmt test _ _ span | .whileStmt test _ span | .doWhileStmt _ test span
  | .throwStmt test span | .returnStmt (some test) span | .classDecl _ (some test) _ span =>
      simp only [Stmt.face, classifyStmt, Option.map, Expr.render_face]
      rfl
  | .forStmt init test update body span =>
      rw [Stmt.face, classifyStmt, classifyStmt, renderInit_face, renderClause_face,
        renderClause_face]
      rfl
  | .forEachStmt kind varKind binding collection body span =>
      simp only [Stmt.face, classifyStmt, Pattern.render_face, Expr.render_face]
      rfl
  | .switchStmt discriminant cases span =>
      simp only [Stmt.face, classifyStmt, Expr.render_face, List.length_map]
      rfl
  | .block body span =>
      simp only [Stmt.face, classifyStmt, List.length_map]
      rfl
  | .returnStmt none _ | .classDecl _ none _ _ | .tryStmt _ _ _ _ _ | .breakStmt _
  | .continueStmt _ | .emptyStmt _ | .unknown _ _ => rfl
  | .labeled label body span =>
      rw [Stmt.face]
      unfold classifyStmt
      rw [classifyStmt_face body]
      rfl
  | .exprStmt e span => exact classifyExpr_face known .expressionStatement e

end Steps

end EventLoop
