import EventLoop.Proofs.Script.Face
import EventLoop.Proofs.Source.Shift

/-!
# Programs further on

A program that is read further on in a text is the same program with spans that are moved
(`Stmt.shift`, `Expr.shift`, `Pattern.shift`).  The spans are no part of its face, so that how it
is written and what names it binds and uses do not change (`Expr.face_shift`, `Stmt.face_shift`).
-/

namespace EventLoop.Script

mutual

/-- A pattern that is read so far further on. -/
def Pattern.shift (d : Shift) : Pattern → Pattern
  | .ident name span => .ident name (span.shift d)
  | .array elements span => .array (shiftElements d elements) (span.shift d)
  | .object properties span => .object (shiftTargets d properties) (span.shift d)
  | .rest target span => .rest (target.shift d) (span.shift d)
  | .withDefault target value span =>
    .withDefault (target.shift d) (value.shift d) (span.shift d)

def shiftElements (d : Shift) : List (Option Pattern) → List (Option Pattern)
  | [] => []
  | none :: rest => none :: shiftElements d rest
  | some element :: rest => some (element.shift d) :: shiftElements d rest

def shiftTargets (d : Shift) : List (String × Pattern) → List (String × Pattern)
  | [] => []
  | (key, target) :: rest => (key, target.shift d) :: shiftTargets d rest

def shiftPatterns (d : Shift) : List Pattern → List Pattern
  | [] => []
  | pattern :: rest => pattern.shift d :: shiftPatterns d rest

/-- A declarator that is read so far further on. -/
def Declarator.shift (d : Shift) : Declarator → Declarator
  | .mk target init span => .mk (target.shift d) (shiftExpr? d init) (span.shift d)

def shiftDeclarators (d : Shift) : List Declarator → List Declarator
  | [] => []
  | declarator :: rest => declarator.shift d :: shiftDeclarators d rest

/-- A case of a switch that is read so far further on. -/
def SwitchCase.shift (d : Shift) : SwitchCase → SwitchCase
  | .mk test body span => .mk (shiftExpr? d test) (shiftStmts d body) (span.shift d)

def shiftCases (d : Shift) : List SwitchCase → List SwitchCase
  | [] => []
  | switchCase :: rest => switchCase.shift d :: shiftCases d rest

/-- A member of a class that is read so far further on. -/
def ClassMember.shift (d : Shift) : ClassMember → ClassMember
  | .method name isStatic function => .method name isStatic (function.shift d)
  | .field name isStatic value span => .field name isStatic (shiftExpr? d value) (span.shift d)

def shiftMembers (d : Shift) : List ClassMember → List ClassMember
  | [] => []
  | member :: rest => member.shift d :: shiftMembers d rest

/-- The body of a function that is read so far further on. -/
def FunctionBody.shift (d : Shift) : FunctionBody → FunctionBody
  | .block body => .block (body.shift d)
  | .expr value => .expr (value.shift d)

/-- A statement that is read so far further on. -/
def Stmt.shift (d : Shift) : Stmt → Stmt
  | .block body span => .block (shiftStmts d body) (span.shift d)
  | .declare kind declarators span => .declare kind (shiftDeclarators d declarators) (span.shift d)
  | .functionDecl name params isAsync body span =>
    .functionDecl name (shiftPatterns d params) isAsync (body.shift d) (span.shift d)
  | .ifStmt test thenBody elseBody span =>
    .ifStmt (test.shift d) (thenBody.shift d) (shiftStmt? d elseBody) (span.shift d)
  | .whileStmt test body span => .whileStmt (test.shift d) (body.shift d) (span.shift d)
  | .doWhileStmt body test span => .doWhileStmt (body.shift d) (test.shift d) (span.shift d)
  | .forStmt init test update body span =>
    .forStmt (shiftStmt? d init) (shiftExpr? d test) (shiftExpr? d update) (body.shift d)
      (span.shift d)
  | .forEachStmt kind varKind binding collection body span =>
    .forEachStmt kind varKind (binding.shift d) (collection.shift d) (body.shift d) (span.shift d)
  | .returnStmt value span => .returnStmt (shiftExpr? d value) (span.shift d)
  | .throwStmt value span => .throwStmt (value.shift d) (span.shift d)
  | .tryStmt body catchVar catchBody finallyBody span =>
    .tryStmt (body.shift d) catchVar (shiftStmt? d catchBody) (shiftStmt? d finallyBody)
      (span.shift d)
  | .exprStmt e span => .exprStmt (e.shift d) (span.shift d)
  | .breakStmt span => .breakStmt (span.shift d)
  | .continueStmt span => .continueStmt (span.shift d)
  | .emptyStmt span => .emptyStmt (span.shift d)
  | .switchStmt discriminant cases span =>
    .switchStmt (discriminant.shift d) (shiftCases d cases) (span.shift d)
  | .classDecl name superclass members span =>
    .classDecl name (shiftExpr? d superclass) (shiftMembers d members) (span.shift d)
  | .labeled label body span => .labeled label (body.shift d) (span.shift d)
  | .unknown text span => .unknown text (span.shift d)

def shiftStmts (d : Shift) : List Stmt → List Stmt
  | [] => []
  | stmt :: rest => stmt.shift d :: shiftStmts d rest

def shiftStmt? (d : Shift) : Option Stmt → Option Stmt
  | none => none
  | some stmt => some (stmt.shift d)

/-- An expression that is read so far further on. -/
def Expr.shift (d : Shift) : Expr → Expr
  | .bool value span => .bool value (span.shift d)
  | .number value span => .number value (span.shift d)
  | .string value span => .string value (span.shift d)
  | .null span => .null (span.shift d)
  | .template pieces exprs span => .template pieces (shiftExprs d exprs) (span.shift d)
  | .regex pattern flags span => .regex pattern flags (span.shift d)
  | .list elements span => .list (shiftExprs d elements) (span.shift d)
  | .object properties span => .object (shiftProperties d properties) (span.shift d)
  | .ident name span => .ident name (span.shift d)
  | .member object property propertySpan isOptional span =>
    .member (object.shift d) property (propertySpan.shift d) isOptional (span.shift d)
  | .index object index span => .index (object.shift d) (index.shift d) (span.shift d)
  | .call callee args span => .call (callee.shift d) (shiftExprs d args) (span.shift d)
  | .construct callee args span => .construct (callee.shift d) (shiftExprs d args) (span.shift d)
  | .await inner span => .await (inner.shift d) (span.shift d)
  | .function name params isAsync isArrow body span =>
    .function name (shiftPatterns d params) isAsync isArrow (body.shift d) (span.shift d)
  | .unary op operand span => .unary op (operand.shift d) (span.shift d)
  | .update op leading target span => .update op leading (target.shift d) (span.shift d)
  | .binary op left right span => .binary op (left.shift d) (right.shift d) (span.shift d)
  | .assign op target value span => .assign op (target.shift d) (value.shift d) (span.shift d)
  | .ternary condition consequent alternate span =>
    .ternary (condition.shift d) (consequent.shift d) (alternate.shift d) (span.shift d)
  | .spread inner span => .spread (inner.shift d) (span.shift d)
  | .sequence exprs span => .sequence (shiftExprs d exprs) (span.shift d)

def shiftExprs (d : Shift) : List Expr → List Expr
  | [] => []
  | e :: rest => e.shift d :: shiftExprs d rest

def shiftExpr? (d : Shift) : Option Expr → Option Expr
  | none => none
  | some e => some (e.shift d)

def shiftProperties (d : Shift) : List (String × Span × Expr) → List (String × Span × Expr)
  | [] => []
  | (key, keySpan, value) :: rest =>
    (key, keySpan.shift d, value.shift d) :: shiftProperties d rest

end

variable (d : Shift)

/-! ## Lists -/

section Lists

theorem shiftStmts_eq (stmts : List Stmt) : shiftStmts d stmts = stmts.map (Stmt.shift d) := by
  induction stmts with
  | nil => rfl
  | cons stmt rest ih => rw [shiftStmts, ih, List.map_cons]

theorem shiftExprs_eq (exprs : List Expr) : shiftExprs d exprs = exprs.map (Expr.shift d) := by
  induction exprs with
  | nil => rfl
  | cons e rest ih => rw [shiftExprs, ih, List.map_cons]

theorem shiftPatterns_eq (patterns : List Pattern) :
    shiftPatterns d patterns = patterns.map (Pattern.shift d) := by
  induction patterns with
  | nil => rfl
  | cons pattern rest ih => rw [shiftPatterns, ih, List.map_cons]

theorem shiftDeclarators_eq (declarators : List Declarator) :
    shiftDeclarators d declarators = declarators.map (Declarator.shift d) := by
  induction declarators with
  | nil => rfl
  | cons declarator rest ih => rw [shiftDeclarators, ih, List.map_cons]

theorem shiftCases_eq (cases : List SwitchCase) :
    shiftCases d cases = cases.map (SwitchCase.shift d) := by
  induction cases with
  | nil => rfl
  | cons switchCase rest ih => rw [shiftCases, ih, List.map_cons]

theorem shiftMembers_eq (members : List ClassMember) :
    shiftMembers d members = members.map (ClassMember.shift d) := by
  induction members with
  | nil => rfl
  | cons member rest ih => rw [shiftMembers, ih, List.map_cons]

theorem shiftElements_eq (elements : List (Option Pattern)) :
    shiftElements d elements = elements.map (Option.map (Pattern.shift d)) := by
  induction elements with
  | nil => rfl
  | cons element rest ih => cases element <;> rw [shiftElements, ih, List.map_cons] <;> rfl

theorem shiftTargets_eq (properties : List (String × Pattern)) :
    shiftTargets d properties = properties.map (Prod.map id (Pattern.shift d)) := by
  induction properties with
  | nil => rfl
  | cons property rest ih =>
      rw [shiftTargets, ih, List.map_cons]
      rfl

theorem shiftProperties_eq (properties : List (String × Span × Expr)) :
    shiftProperties d properties =
      properties.map (Prod.map id (Prod.map (Span.shift d) (Expr.shift d))) := by
  induction properties with
  | nil => rfl
  | cons property rest ih =>
      rw [shiftProperties, ih, List.map_cons]
      rfl

theorem shiftStmt?_eq (stmt : Option Stmt) : shiftStmt? d stmt = stmt.map (Stmt.shift d) := by
  cases stmt <;> rfl

theorem shiftExpr?_eq (e : Option Expr) : shiftExpr? d e = e.map (Expr.shift d) := by
  cases e <;> rfl

end Lists

/-! ## What is the same further on -/

@[simp]
theorem Expr.span_shift (e : Expr) : (e.shift d).span = e.span.shift d := by
  cases e <;> rfl

@[simp]
theorem Pattern.name?_shift (pattern : Pattern) : (pattern.shift d).name? = pattern.name? := by
  cases pattern <;> rfl

mutual

theorem Pattern.face_shift (pattern : Pattern) : (pattern.shift d).face = pattern.face := by
  match pattern with
  | .ident _ _ => rfl
  | .array elements _ => simp [Pattern.shift, Pattern.face, faceElements_shift elements]
  | .object properties _ => simp [Pattern.shift, Pattern.face, faceTargets_shift properties]
  | .rest target _ => simp [Pattern.shift, Pattern.face, Pattern.face_shift target]
  | .withDefault target value _ =>
      simp [Pattern.shift, Pattern.face, Pattern.face_shift target, Expr.face_shift value]

theorem faceElements_shift (elements : List (Option Pattern)) :
    faceElements (shiftElements d elements) = faceElements elements := by
  match elements with
  | [] => rfl
  | none :: rest => rw [shiftElements, faceElements, faceElements_shift rest, faceElements]
  | some element :: rest =>
      rw [shiftElements, faceElements, Pattern.face_shift element, faceElements_shift rest,
        faceElements]

theorem faceTargets_shift (properties : List (String × Pattern)) :
    faceTargets (shiftTargets d properties) = faceTargets properties := by
  match properties with
  | [] => rfl
  | (_, target) :: rest =>
      rw [shiftTargets, faceTargets, Pattern.face_shift target, faceTargets_shift rest,
        faceTargets]

theorem facePatterns_shift (patterns : List Pattern) :
    facePatterns (shiftPatterns d patterns) = facePatterns patterns := by
  match patterns with
  | [] => rfl
  | pattern :: rest =>
      rw [shiftPatterns, facePatterns, Pattern.face_shift pattern, facePatterns_shift rest,
        facePatterns]

theorem FunctionBody.face_shift (body : FunctionBody) : (body.shift d).face = body.face := by
  match body with
  | .block _ => rfl
  | .expr value => simp [FunctionBody.shift, FunctionBody.face, Expr.face_shift value]

/-- What is shown of an expression is the same wherever it is read. -/
theorem Expr.face_shift (e : Expr) : (e.shift d).face = e.face := by
  match e with
  | .bool _ _ | .number _ _ | .string _ _ | .null _ | .regex _ _ _ | .ident _ _ => rfl
  | .template _ exprs _ | .list exprs _ | .sequence exprs _ =>
      simp [Expr.shift, Expr.face, faceExprs_shift exprs]
  | .object properties _ => simp [Expr.shift, Expr.face, faceProperties_shift properties]
  | .member inner _ _ _ _ | .await inner _ | .unary _ inner _ | .update _ _ inner _
  | .spread inner _ =>
      simp [Expr.shift, Expr.face, Expr.face_shift inner]
  | .index first second _ | .binary _ first second _ | .assign _ first second _ =>
      simp [Expr.shift, Expr.face, Expr.face_shift first, Expr.face_shift second]
  | .call callee args _ | .construct callee args _ =>
      simp [Expr.shift, Expr.face, Expr.face_shift callee, faceExprs_shift args]
  | .function _ params _ _ body _ =>
      simp [Expr.shift, Expr.face, facePatterns_shift params, FunctionBody.face_shift body]
  | .ternary condition consequent alternate _ =>
      simp [Expr.shift, Expr.face, Expr.face_shift condition, Expr.face_shift consequent,
        Expr.face_shift alternate]

theorem faceExprs_shift (exprs : List Expr) :
    faceExprs (shiftExprs d exprs) = faceExprs exprs := by
  match exprs with
  | [] => rfl
  | e :: rest =>
      rw [shiftExprs, faceExprs, Expr.face_shift e, faceExprs_shift rest, faceExprs]

theorem faceProperties_shift (properties : List (String × Span × Expr)) :
    faceProperties (shiftProperties d properties) = faceProperties properties := by
  match properties with
  | [] => rfl
  | (_, _, value) :: rest =>
      rw [shiftProperties, faceProperties, Expr.face_shift value,
        faceProperties_shift rest, faceProperties]

end

theorem Declarator.face_shift (declarator : Declarator) :
    (declarator.shift d).face = declarator.face := by
  obtain ⟨target, init, span⟩ := declarator
  cases init <;>
    simp [Declarator.shift, Declarator.face, shiftExpr?, Pattern.face_shift,
      Expr.face_shift]

theorem Pattern.names_shift (pattern : Pattern) : (pattern.shift d).names = pattern.names := by
  rw [← names_face, face_shift, names_face]

theorem faceInit?_shift (init : Option Stmt) :
    Stmt.faceInit? (shiftStmt? d init) = Stmt.faceInit? init := by
  cases init with
  | none => rfl
  | some stmt =>
      cases stmt with
      | declare kind declarators span =>
          simp [shiftStmt?, Stmt.shift, Stmt.faceInit?, shiftDeclarators_eq, Declarator.face_shift]
      | exprStmt e span => simp [shiftStmt?, Stmt.shift, Stmt.faceInit?, Expr.face_shift]
      | _ => rfl

/-- What is shown of a statement is the same wherever it is read. -/
theorem Stmt.face_shift (stmt : Stmt) : (stmt.shift d).face = stmt.face := by
  have hexpr? (e : Option Expr) : (shiftExpr? d e).map Expr.face = e.map Expr.face := by
    cases e <;> simp [shiftExpr?, Expr.face_shift]
  match stmt with
  | .block body _ =>
      rw [Stmt.shift, Stmt.face, Stmt.face, shiftStmts_eq, List.map_map]
      rfl
  | .switchStmt discriminant cases _ =>
      rw [Stmt.shift, Stmt.face, Stmt.face, discriminant.face_shift, shiftCases_eq, List.map_map]
      rfl
  | .labeled _ body _ => rw [Stmt.shift, Stmt.face, Stmt.face, Stmt.face_shift body]
  | .declare _ _ _ | .functionDecl _ _ _ _ _ | .ifStmt _ _ _ _ | .whileStmt _ _ _
  | .doWhileStmt _ _ _ | .forStmt _ _ _ _ _ | .forEachStmt _ _ _ _ _ _ | .returnStmt _ _
  | .throwStmt _ _ | .tryStmt _ _ _ _ _ | .exprStmt _ _ | .breakStmt _ | .continueStmt _
  | .emptyStmt _ | .classDecl _ _ _ _ | .unknown _ _ =>
      simp [Stmt.shift, Stmt.face, hexpr?, faceInit?_shift, shiftDeclarators_eq,
        facePatterns_shift, Pattern.face_shift, Expr.face_shift, Declarator.face_shift]

end EventLoop.Script
