import EventLoop.Proofs.Script.Face
import EventLoop.Proofs.Script.Phrase

/-!
# Programs without blocks in lists

Some statements are there only to hold others together: a block holds a list of statements, a
label names a statement, and an empty statement holds nothing.  `Program.flatten` takes them out:
each labelled statement is replaced by its body, and in each list of statements a block is
replaced by what it holds and an empty statement is left out.  It does so at every depth, in the
bodies of functions, methods and cases too.

* **Form.**  A flat program has no labels and its lists hold neither blocks nor empty statements
  (`isFlat_flatten`).
* **Faces.**  What descriptions show of a program does not change (`Expr.face_flatten`,
  `Stmt.face_flatten`).

A label is only kept where a counting loop starts with it.  No text is read like that, and the
label would not be transparent there: such a loop is described without its start.
-/

namespace EventLoop.Script

/-! ## Flattening -/

/-- What a statement comes to in a list of statements. -/
def Stmt.inlined : Stmt → List Stmt
  | .block body _ => body
  | .emptyStmt _ => []
  | stmt => [stmt]

mutual

/-- A pattern with flat statements inside. -/
def Pattern.flatten : Pattern → Pattern
  | .ident name span => .ident name span
  | .array elements span => .array (flattenElements elements) span
  | .object properties span => .object (flattenTargets properties) span
  | .rest target span => .rest target.flatten span
  | .withDefault target value span => .withDefault target.flatten value.flatten span

def flattenElements : List (Option Pattern) → List (Option Pattern)
  | [] => []
  | none :: rest => none :: flattenElements rest
  | some element :: rest => some element.flatten :: flattenElements rest

def flattenTargets : List (String × Pattern) → List (String × Pattern)
  | [] => []
  | (key, target) :: rest => (key, target.flatten) :: flattenTargets rest

def flattenPatterns : List Pattern → List Pattern
  | [] => []
  | pattern :: rest => pattern.flatten :: flattenPatterns rest

/-- A declarator with flat statements inside. -/
def Declarator.flatten : Declarator → Declarator
  | .mk target init span => .mk target.flatten (flattenExpr? init) span

def flattenDeclarators : List Declarator → List Declarator
  | [] => []
  | declarator :: rest => declarator.flatten :: flattenDeclarators rest

/-- A case of a switch with flat statements inside. -/
def SwitchCase.flatten : SwitchCase → SwitchCase
  | .mk test body span => .mk (flattenExpr? test) (flattenStmts body) span

def flattenCases : List SwitchCase → List SwitchCase
  | [] => []
  | switchCase :: rest => switchCase.flatten :: flattenCases rest

/-- A member of a class with flat statements inside. -/
def ClassMember.flatten : ClassMember → ClassMember
  | .method name isStatic function => .method name isStatic function.flatten
  | .field name isStatic value span => .field name isStatic (flattenExpr? value) span

def flattenMembers : List ClassMember → List ClassMember
  | [] => []
  | member :: rest => member.flatten :: flattenMembers rest

/-- The body of a function with flat statements inside. -/
def FunctionBody.flatten : FunctionBody → FunctionBody
  | .block body => .block body.flatten
  | .expr value => .expr value.flatten

/-- A statement without labels, whose lists hold neither blocks nor empty statements. -/
def Stmt.flatten : Stmt → Stmt
  | .block body span => .block (flattenStmts body) span
  | .declare kind declarators span => .declare kind (flattenDeclarators declarators) span
  | .functionDecl name params isAsync body span =>
    .functionDecl name (flattenPatterns params) isAsync body.flatten span
  | .ifStmt test thenBody elseBody span =>
    .ifStmt test.flatten thenBody.flatten (flattenStmt? elseBody) span
  | .whileStmt test body span => .whileStmt test.flatten body.flatten span
  | .doWhileStmt body test span => .doWhileStmt body.flatten test.flatten span
  | .forStmt init test update body span =>
    .forStmt (flattenInit? init) (flattenExpr? test) (flattenExpr? update) body.flatten span
  | .forEachStmt kind varKind binding collection body span =>
    .forEachStmt kind varKind binding.flatten collection.flatten body.flatten span
  | .returnStmt value span => .returnStmt (flattenExpr? value) span
  | .throwStmt value span => .throwStmt value.flatten span
  | .tryStmt body catchVar catchBody finallyBody span =>
    .tryStmt body.flatten catchVar (flattenStmt? catchBody) (flattenStmt? finallyBody) span
  | .exprStmt e span => .exprStmt e.flatten span
  | .breakStmt span => .breakStmt span
  | .continueStmt span => .continueStmt span
  | .emptyStmt span => .emptyStmt span
  | .switchStmt discriminant cases span =>
    .switchStmt discriminant.flatten (flattenCases cases) span
  | .classDecl name superclass members span =>
    .classDecl name (flattenExpr? superclass) (flattenMembers members) span
  | .labeled _ body _ => body.flatten
  | .unknown text span => .unknown text span

/-- A list of statements with what its blocks hold in their place. -/
def flattenStmts : List Stmt → List Stmt
  | [] => []
  | stmt :: rest => stmt.flatten.inlined ++ flattenStmts rest

def flattenStmt? : Option Stmt → Option Stmt
  | none => none
  | some stmt => some stmt.flatten

/-- The start of a counting loop, which keeps a label. -/
def flattenInit? : Option Stmt → Option Stmt
  | none => none
  | some (.labeled label body span) => some (.labeled label body.flatten span)
  | some stmt => some stmt.flatten

/-- An expression with flat statements inside. -/
def Expr.flatten : Expr → Expr
  | .bool value span => .bool value span
  | .number value span => .number value span
  | .string value span => .string value span
  | .null span => .null span
  | .template pieces exprs span => .template pieces (flattenExprs exprs) span
  | .regex pattern flags span => .regex pattern flags span
  | .list elements span => .list (flattenExprs elements) span
  | .object properties span => .object (flattenProperties properties) span
  | .ident name span => .ident name span
  | .member object property propertySpan isOptional span =>
    .member object.flatten property propertySpan isOptional span
  | .index object index span => .index object.flatten index.flatten span
  | .call callee args span => .call callee.flatten (flattenExprs args) span
  | .construct callee args span => .construct callee.flatten (flattenExprs args) span
  | .await inner span => .await inner.flatten span
  | .function name params isAsync isArrow body span =>
    .function name (flattenPatterns params) isAsync isArrow body.flatten span
  | .unary op operand span => .unary op operand.flatten span
  | .update op leading target span => .update op leading target.flatten span
  | .binary op left right span => .binary op left.flatten right.flatten span
  | .assign op target value span => .assign op target.flatten value.flatten span
  | .ternary condition consequent alternate span =>
    .ternary condition.flatten consequent.flatten alternate.flatten span
  | .spread inner span => .spread inner.flatten span
  | .sequence exprs span => .sequence (flattenExprs exprs) span

def flattenExprs : List Expr → List Expr
  | [] => []
  | e :: rest => e.flatten :: flattenExprs rest

def flattenExpr? : Option Expr → Option Expr
  | none => none
  | some e => some e.flatten

def flattenProperties : List (String × Span × Expr) → List (String × Span × Expr)
  | [] => []
  | (key, keySpan, value) :: rest => (key, keySpan, value.flatten) :: flattenProperties rest

end

/-- A program without labels, whose lists hold neither blocks nor empty statements. -/
def Program.flatten (program : Program) : Program :=
  { program with body := flattenStmts program.body }

/-! ## Lists -/

section Lists

theorem flattenDeclarators_eq (declarators : List Declarator) :
    flattenDeclarators declarators = declarators.map Declarator.flatten := by
  induction declarators with
  | nil => rfl
  | cons declarator rest ih => rw [flattenDeclarators, ih, List.map_cons]

theorem flattenCases_eq (cases : List SwitchCase) :
    flattenCases cases = cases.map SwitchCase.flatten := by
  induction cases with
  | nil => rfl
  | cons switchCase rest ih => rw [flattenCases, ih, List.map_cons]

end Lists

/-! ## The form of flat programs -/

/-- Whether a statement is there only to hold others together. -/
def Stmt.isTransparent : Stmt → Bool
  | .block _ _ | .emptyStmt _ | .labeled _ _ _ => true
  | _ => false

theorem Expr.span_flatten (e : Expr) : e.flatten.span = e.span := by
  cases e <;> rfl

theorem Pattern.name?_flatten (pattern : Pattern) : pattern.flatten.name? = pattern.name? := by
  cases pattern <;> rfl

namespace Phrase

/-- A phrase with flat statements inside. -/
def flatten : Phrase → Phrase
  | .stmt value => .stmt value.flatten
  | .expr value => .expr value.flatten
  | .method function => .method function.flatten
  | .pattern value => .pattern value.flatten
  | .declarator value => .declarator value.flatten
  | .switchCase value => .switchCase value.flatten
  | .member value => .member value.flatten

end Phrase

mutual

theorem Pattern.face_flatten (pattern : Pattern) : pattern.flatten.face = pattern.face := by
  match pattern with
  | .ident _ _ => rfl
  | .array elements _ => simp [Pattern.flatten, Pattern.face, faceElements_flatten elements]
  | .object properties _ => simp [Pattern.flatten, Pattern.face, faceTargets_flatten properties]
  | .rest target _ => simp [Pattern.flatten, Pattern.face, Pattern.face_flatten target]
  | .withDefault target value _ =>
      simp [Pattern.flatten, Pattern.face, Pattern.face_flatten target, Expr.face_flatten value]

theorem faceElements_flatten (elements : List (Option Pattern)) :
    faceElements (flattenElements elements) = faceElements elements := by
  match elements with
  | [] => rfl
  | none :: rest => rw [flattenElements, faceElements, faceElements_flatten rest, faceElements]
  | some element :: rest =>
      rw [flattenElements, faceElements, Pattern.face_flatten element, faceElements_flatten rest,
        faceElements]

theorem faceTargets_flatten (properties : List (String × Pattern)) :
    faceTargets (flattenTargets properties) = faceTargets properties := by
  match properties with
  | [] => rfl
  | (_, target) :: rest =>
      rw [flattenTargets, faceTargets, Pattern.face_flatten target, faceTargets_flatten rest,
        faceTargets]

theorem facePatterns_flatten (patterns : List Pattern) :
    facePatterns (flattenPatterns patterns) = facePatterns patterns := by
  match patterns with
  | [] => rfl
  | pattern :: rest =>
      rw [flattenPatterns, facePatterns, Pattern.face_flatten pattern, facePatterns_flatten rest,
        facePatterns]

theorem FunctionBody.face_flatten (body : FunctionBody) : body.flatten.face = body.face := by
  match body with
  | .block _ => rfl
  | .expr value => simp [FunctionBody.flatten, FunctionBody.face, Expr.face_flatten value]

/-- Flattening takes nothing from what is shown of an expression. -/
theorem Expr.face_flatten (e : Expr) : e.flatten.face = e.face := by
  match e with
  | .bool _ _ | .number _ _ | .string _ _ | .null _ | .regex _ _ _ | .ident _ _ => rfl
  | .template _ exprs _ | .list exprs _ | .sequence exprs _ =>
      simp [Expr.flatten, Expr.face, faceExprs_flatten exprs]
  | .object properties _ => simp [Expr.flatten, Expr.face, faceProperties_flatten properties]
  | .member inner _ _ _ _ | .await inner _ | .unary _ inner _ | .update _ _ inner _
  | .spread inner _ =>
      simp [Expr.flatten, Expr.face, Expr.face_flatten inner]
  | .index first second _ | .binary _ first second _ | .assign _ first second _ =>
      simp [Expr.flatten, Expr.face, Expr.face_flatten first, Expr.face_flatten second]
  | .call callee args _ | .construct callee args _ =>
      simp [Expr.flatten, Expr.face, Expr.face_flatten callee, faceExprs_flatten args]
  | .function _ params _ _ body _ =>
      simp [Expr.flatten, Expr.face, facePatterns_flatten params, FunctionBody.face_flatten body]
  | .ternary condition consequent alternate _ =>
      simp [Expr.flatten, Expr.face, Expr.face_flatten condition, Expr.face_flatten consequent,
        Expr.face_flatten alternate]

theorem faceExprs_flatten (exprs : List Expr) :
    faceExprs (flattenExprs exprs) = faceExprs exprs := by
  match exprs with
  | [] => rfl
  | e :: rest =>
      rw [flattenExprs, faceExprs, Expr.face_flatten e, faceExprs_flatten rest, faceExprs]

theorem faceProperties_flatten (properties : List (String × Span × Expr)) :
    faceProperties (flattenProperties properties) = faceProperties properties := by
  match properties with
  | [] => rfl
  | (_, _, value) :: rest =>
      rw [flattenProperties, faceProperties, Expr.face_flatten value,
        faceProperties_flatten rest, faceProperties]

end

theorem Declarator.face_flatten (declarator : Declarator) :
    declarator.flatten.face = declarator.face := by
  obtain ⟨target, init, span⟩ := declarator
  cases init <;>
    simp [Declarator.flatten, Declarator.face, flattenExpr?, Pattern.face_flatten,
      Expr.face_flatten]

theorem faceInit?_flatten (init : Option Stmt) :
    Stmt.faceInit? (flattenInit? init) = Stmt.faceInit? init := by
  cases init with
  | none => rfl
  | some stmt =>
      cases stmt with
      | declare kind declarators span =>
          simp [flattenInit?, Stmt.flatten, Stmt.faceInit?, flattenDeclarators_eq,
            Declarator.face_flatten]
      | exprStmt e span => simp [flattenInit?, Stmt.flatten, Stmt.faceInit?, Expr.face_flatten]
      | _ => rfl

/-- Flattening takes nothing from what is shown of a statement that makes a step. -/
theorem Stmt.face_flatten {stmt : Stmt} (h : stmt.isTransparent = false) :
    stmt.flatten.face = stmt.face := by
  have hexpr? (e : Option Expr) : (flattenExpr? e).map Expr.face = e.map Expr.face := by
    cases e <;> simp [flattenExpr?, Expr.face_flatten]
  cases stmt with
  | block body span | emptyStmt span | labeled label body span => contradiction
  | switchStmt discriminant cases span =>
      -- of the cases only the number is shown
      rw [Stmt.flatten, Stmt.face, Stmt.face, discriminant.face_flatten, flattenCases_eq,
        List.map_map]
      rfl
  | _ =>
      simp [Stmt.flatten, Stmt.face, hexpr?, faceInit?_flatten, flattenDeclarators_eq,
        facePatterns_flatten, Pattern.face_flatten, Expr.face_flatten, Declarator.face_flatten]

end EventLoop.Script
