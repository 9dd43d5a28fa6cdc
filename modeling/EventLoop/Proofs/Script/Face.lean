import EventLoop.Script.Render

/-!
# Faces

What a description shows of an expression is less than the expression: neither where it stands
nor the statements in the bodies of its functions.  The face of an expression (`Expr.face`), of a
pattern or of a statement is what is left when these are taken out, and how a phrase is written
and what names it binds or goes by are read off from its face.

So a change to a program that keeps the faces, such as moving it to another place or changing the
statements inside functions, does not change how it is written.
-/

namespace EventLoop.Script

/-- What stands for statements that are not shown. -/
def Stmt.hidden : Stmt := .emptyStmt .zero

mutual

/-- What is shown of a pattern. -/
def Pattern.face : Pattern → Pattern
  | .ident name _ => .ident name .zero
  | .array elements _ => .array (faceElements elements) .zero
  | .object properties _ => .object (faceTargets properties) .zero
  | .rest target _ => .rest target.face .zero
  | .withDefault target value _ => .withDefault target.face value.face .zero

def faceElements : List (Option Pattern) → List (Option Pattern)
  | [] => []
  | none :: rest => none :: faceElements rest
  | some element :: rest => some element.face :: faceElements rest

def faceTargets : List (String × Pattern) → List (String × Pattern)
  | [] => []
  | (key, target) :: rest => (key, target.face) :: faceTargets rest

def facePatterns : List Pattern → List Pattern
  | [] => []
  | pattern :: rest => pattern.face :: facePatterns rest

/-- What is shown of the body of a function. -/
def FunctionBody.face : FunctionBody → FunctionBody
  | .block _ => .block .hidden
  | .expr value => .expr value.face

/-- What is shown of an expression. -/
def Expr.face : Expr → Expr
  | .bool value _ => .bool value .zero
  | .number value _ => .number value .zero
  | .string value _ => .string value .zero
  | .null _ => .null .zero
  | .template pieces exprs _ => .template pieces (faceExprs exprs) .zero
  | .regex pattern flags _ => .regex pattern flags .zero
  | .list elements _ => .list (faceExprs elements) .zero
  | .object properties _ => .object (faceProperties properties) .zero
  | .ident name _ => .ident name .zero
  | .member object property _ isOptional _ => .member object.face property .zero isOptional .zero
  | .index object index _ => .index object.face index.face .zero
  | .call callee args _ => .call callee.face (faceExprs args) .zero
  | .construct callee args _ => .construct callee.face (faceExprs args) .zero
  | .await inner _ => .await inner.face .zero
  | .function name params isAsync isArrow body _ =>
    .function name (facePatterns params) isAsync isArrow body.face .zero
  | .unary op operand _ => .unary op operand.face .zero
  | .update op leading target _ => .update op leading target.face .zero
  | .binary op left right _ => .binary op left.face right.face .zero
  | .assign op target value _ => .assign op target.face value.face .zero
  | .ternary condition consequent alternate _ =>
    .ternary condition.face consequent.face alternate.face .zero
  | .spread inner _ => .spread inner.face .zero
  | .sequence exprs _ => .sequence (faceExprs exprs) .zero

def faceExprs : List Expr → List Expr
  | [] => []
  | e :: rest => e.face :: faceExprs rest

def faceProperties : List (String × Span × Expr) → List (String × Span × Expr)
  | [] => []
  | (key, _, value) :: rest => (key, .zero, value.face) :: faceProperties rest

end

/-- What is shown of a declarator. -/
def Declarator.face : Declarator → Declarator
  | .mk target init _ => .mk target.face (init.map Expr.face) .zero

/-- What is shown of the start of a counting loop. -/
def Stmt.faceInit? : Option Stmt → Option Stmt
  | some (.declare kind declarators _) =>
    some (.declare kind (declarators.map Declarator.face) .zero)
  | some (.exprStmt e _) => some (.exprStmt e.face .zero)
  | _ => none

/-- What is shown of a statement.  Of the statements of a block and of the cases of a switch only
the number is shown. -/
def Stmt.face : Stmt → Stmt
  | .block body _ => .block (body.map fun _ => .hidden) .zero
  | .declare kind declarators _ => .declare kind (declarators.map Declarator.face) .zero
  | .functionDecl name params isAsync _ _ =>
    .functionDecl name (facePatterns params) isAsync .hidden .zero
  | .ifStmt test _ _ _ => .ifStmt test.face .hidden none .zero
  | .whileStmt test _ _ => .whileStmt test.face .hidden .zero
  | .doWhileStmt _ test _ => .doWhileStmt .hidden test.face .zero
  | .forStmt init test update _ _ =>
    .forStmt (faceInit? init) (test.map Expr.face) (update.map Expr.face) .hidden .zero
  | .forEachStmt kind varKind binding collection _ _ =>
    .forEachStmt kind varKind binding.face collection.face .hidden .zero
  | .returnStmt value _ => .returnStmt (value.map Expr.face) .zero
  | .throwStmt value _ => .throwStmt value.face .zero
  | .tryStmt _ catchVar _ _ _ => .tryStmt .hidden catchVar none none .zero
  | .exprStmt e _ => .exprStmt e.face .zero
  | .breakStmt _ => .breakStmt .zero
  | .continueStmt _ => .continueStmt .zero
  | .switchStmt discriminant cases _ =>
    .switchStmt discriminant.face (cases.map fun _ => .mk none [] .zero) .zero
  | .classDecl name superclass _ _ => .classDecl name (superclass.map Expr.face) [] .zero
  | .unknown text _ => .unknown text .zero
  | .emptyStmt _ => .emptyStmt .zero
  | .labeled label body _ => .labeled label body.face .zero

theorem faceExprs_eq (exprs : List Expr) : faceExprs exprs = exprs.map Expr.face := by
  induction exprs with
  | nil => rfl
  | cons e rest ih => rw [faceExprs, ih, List.map_cons]

/-! ## Names -/

@[simp]
theorem Pattern.name?_face (pattern : Pattern) : pattern.face.name? = pattern.name? := by
  cases pattern <;> rfl

namespace Pattern

mutual

@[simp]
theorem names_face (pattern : Pattern) : pattern.face.names = pattern.names := by
  match pattern with
  | .ident _ _ => rfl
  | .array elements _ => exact namesOfElements_face elements
  | .object properties _ => exact namesOfProperties_face properties
  | .rest target _ | .withDefault target _ _ => exact names_face target

theorem namesOfElements_face (elements : List (Option Pattern)) :
    namesOfElements (faceElements elements) = namesOfElements elements := by
  match elements with
  | [] => rfl
  | none :: others => exact namesOfElements_face others
  | some element :: others =>
      rw [faceElements, namesOfElements, names_face element, namesOfElements_face others,
        namesOfElements]

theorem namesOfProperties_face (properties : List (String × Pattern)) :
    namesOfProperties (faceTargets properties) = namesOfProperties properties := by
  match properties with
  | [] => rfl
  | (_, target) :: others =>
      rw [faceTargets, namesOfProperties, names_face target, namesOfProperties_face others,
        namesOfProperties]

end

end Pattern

@[simp]
theorem Expr.dottedName?_face (e : Expr) : e.face.dottedName? = e.dottedName? := by
  match e with
  | .member owner property _ _ _ =>
      rw [Expr.face, dottedName?, dottedName?_face owner, dottedName?]
  | .bool _ _ | .number _ _ | .string _ _ | .null _ | .template _ _ _ | .regex _ _ _ | .list _ _
  | .object _ _ | .ident _ _ | .index _ _ _ | .call _ _ _ | .construct _ _ _ | .await _ _
  | .function _ _ _ _ _ _ | .unary _ _ _ | .update _ _ _ _ | .binary _ _ _ _ | .assign _ _ _ _
  | .ternary _ _ _ _ | .spread _ _ | .sequence _ _ => rfl

/-! ## Writing -/

@[simp]
theorem Expr.isLoose_face (e : Expr) : e.face.isLoose = e.isLoose := by
  cases e <;> rfl

@[simp]
theorem Expr.isSequence_face (e : Expr) : e.face.isSequence = e.isSequence := by
  cases e <;> rfl

@[simp]
theorem Expr.needsGrouping_face (op : BinaryOp) (isRight : Bool) (e : Expr) :
    e.face.needsGrouping op isRight = e.needsGrouping op isRight := by
  cases e <;> rfl

@[simp]
theorem Expr.standsFor_face (key : String) (e : Expr) : e.face.standsFor key = e.standsFor key := by
  cases e <;> rfl

@[simp]
theorem Pattern.standsFor_face (key : String) (pattern : Pattern) :
    pattern.face.standsFor key = pattern.standsFor key := by
  cases pattern with
  | withDefault target value span =>
      rw [Pattern.face, standsFor, name?_face, standsFor]
  | _ => rfl

mutual

/-- An expression is written as its face is. -/
@[simp]
theorem Expr.render_face (e : Expr) : e.face.render = e.render := by
  match e with
  | .bool _ _ | .number _ _ | .string _ _ | .null _ | .regex _ _ _ | .ident _ _ => rfl
  | .template pieces exprs _ => simp [Expr.face, Expr.render, renderTemplate_face pieces exprs]
  | .list exprs _ | .sequence exprs _ => simp [Expr.face, Expr.render, renderItems_face exprs]
  | .object properties _ => simp [Expr.face, Expr.render, renderProperties_face properties]
  | .member inner _ _ _ _ | .await inner _ | .unary _ inner _ | .update _ _ inner _
  | .spread inner _ =>
      simp [Expr.face, Expr.render, Expr.render_face inner]
  | .index first second _ | .binary _ first second _ | .assign _ first second _ =>
      simp [Expr.face, Expr.render, Expr.render_face first, Expr.render_face second]
  | .call callee args _ | .construct callee args _ =>
      simp [Expr.face, Expr.render, Expr.render_face callee, renderItems_face args]
  | .function _ params _ _ body _ =>
      simp [Expr.face, Expr.render, renderPatterns_face params, FunctionBody.render_face body]
  | .ternary condition consequent alternate _ =>
      simp [Expr.face, Expr.render, Expr.render_face condition, Expr.render_face consequent,
        Expr.render_face alternate]

theorem FunctionBody.render_face (body : FunctionBody) : body.face.render = body.render := by
  match body with
  | .block _ => rfl
  | .expr value => exact Expr.render_face value

theorem renderTemplate_face (pieces : List String) (exprs : List Expr) :
    renderTemplate pieces (faceExprs exprs) = renderTemplate pieces exprs := by
  match pieces, exprs with
  | [], _ => rw [renderTemplate, renderTemplate]
  | piece :: pieces, [] => rfl
  | piece :: pieces, e :: rest =>
      rw [faceExprs, renderTemplate, Expr.render_face e, renderTemplate_face pieces rest,
        renderTemplate]

theorem renderItems_face (exprs : List Expr) :
    renderItems (faceExprs exprs) = renderItems exprs := by
  match exprs with
  | [] => rfl
  | e :: rest =>
      rw [faceExprs, renderItems, Expr.isSequence_face, Expr.render_face e,
        renderItems_face rest, renderItems]

theorem renderProperties_face (properties : List (String × Span × Expr)) :
    renderProperties (faceProperties properties) = renderProperties properties := by
  match properties with
  | [] => rfl
  | (key, _, value) :: rest =>
      rw [faceProperties, renderProperties, Expr.standsFor_face, Expr.render_face value,
        renderProperties_face rest, renderProperties]

/-- A pattern is written as its face is. -/
@[simp]
theorem Pattern.render_face (pattern : Pattern) : pattern.face.render = pattern.render := by
  match pattern with
  | .ident _ _ => rfl
  | .array elements _ => simp [Pattern.face, Pattern.render, renderElements_face elements]
  | .object properties _ => simp [Pattern.face, Pattern.render, renderTargets_face properties]
  | .rest target _ => simp [Pattern.face, Pattern.render, Pattern.render_face target]
  | .withDefault target value _ =>
      simp [Pattern.face, Pattern.render, Pattern.render_face target, Expr.render_face value]

@[simp]
theorem renderPatterns_face (patterns : List Pattern) :
    renderPatterns (facePatterns patterns) = renderPatterns patterns := by
  match patterns with
  | [] => rfl
  | pattern :: rest =>
      rw [facePatterns, renderPatterns, Pattern.render_face pattern, renderPatterns_face rest,
        renderPatterns]

theorem renderElements_face (elements : List (Option Pattern)) :
    renderElements (faceElements elements) = renderElements elements := by
  match elements with
  | [] => rfl
  | none :: rest => rw [faceElements, renderElements, renderElements_face rest, renderElements]
  | some element :: rest =>
      rw [faceElements, renderElements, Pattern.render_face element, renderElements_face rest,
        renderElements]

theorem renderTargets_face (properties : List (String × Pattern)) :
    renderTargets (faceTargets properties) = renderTargets properties := by
  match properties with
  | [] => rfl
  | (key, target) :: rest =>
      rw [faceTargets, renderTargets, Pattern.standsFor_face, Pattern.render_face target,
        renderTargets_face rest, renderTargets]

end

@[simp]
theorem Declarator.render_face (declarator : Declarator) :
    declarator.face.render = declarator.render := by
  obtain ⟨target, init, span⟩ := declarator
  cases init <;> simp [Declarator.face, Declarator.render, Declarator.init, Declarator.target]

end EventLoop.Script
