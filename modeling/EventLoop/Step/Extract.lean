import EventLoop.Script.Parse
import EventLoop.Step.Classify

/-!
# Extracting steps

The walk over a script that makes its steps, in the order of the text.

* A statement makes a step, except for blocks, empty statements and labels,
  which only lead to what they contain.
* An expression inside another one or inside a statement makes a step if it
  is a call, an await or a construction that matters for scheduling.  The
  expression of an expression statement has its step already.
* The walk then goes on inside, with the construct added to the ancestry where
  it matters: bodies of functions, callbacks, branches, loops and try blocks.

A script that cannot be read gives a single step that says so.
-/

namespace EventLoop

open Script

/-- Makes the step of a node. -/
def Extraction.emit (known : Extraction) (ancestry : List Ancestor) (node : Node) : Extraction :=
  known.push (classify known ancestry node)

/-- Makes the step of an expression that deserves one. -/
def Extraction.emitNested (known : Extraction) (ancestry : List Ancestor) (e : Expr) :
    Extraction :=
  if (nestedAction? known e).isSome then known.emit ancestry (.expr e) else known

/-- How the callbacks of a call are labelled. -/
def callbackOwner (callee : Expr) : String :=
  match callee.dottedName?, callee with
  | some name, _ => name
  | none, .member _ property _ _ _ => "." ++ property
  | none, _ => "anonymous"

/-- A declared function. -/
def functionInfo (name : String) (params : List Pattern) (isAsync : Bool) (span : Span) :
    FunctionInfo :=
  { name, params := renderPatterns params, isAsync, sourceLine := span.line }

/-- Adds the functions that declarators give names to. -/
def declareFunctions (known : Extraction) : List Declarator → Extraction
  | [] => known
  | declarator :: rest =>
    declareFunctions
      (match declarator.target.name?, declarator.init with
       | some name, some (.function _ params isAsync _ _ _) =>
         known.declare (functionInfo name params isAsync declarator.span)
       | _, _ => known)
      rest

mutual

/-- Walks a statement. -/
def walkStmt (ancestry : List Ancestor) (stmt : Stmt) (known : Extraction) : Extraction :=
  match stmt with
  | .block body _ => walkStmts ancestry body known
  | .emptyStmt _ => known
  | .labeled _ body _ => walkStmt ancestry body known
  | .declare _ declarators _ =>
    walkDeclarators ancestry declarators
      ((declareFunctions known declarators).emit ancestry (.stmt stmt))
  | .functionDecl name params isAsync body span =>
    walkStmt (.function name :: ancestry) body
      ((known.declare (functionInfo name params isAsync span)).emit ancestry (.stmt stmt))
  | .ifStmt test thenBody elseBody _ =>
    let known := walkExpr ancestry false test (known.emit ancestry (.stmt stmt))
    let known := walkStmt (.conditional :: ancestry) thenBody known
    match elseBody with
    | some elseBody => walkStmt (.conditional :: ancestry) elseBody known
    | none => known
  | .whileStmt test body _ =>
    walkStmt (.loop :: ancestry) body
      (walkExpr ancestry false test (known.emit ancestry (.stmt stmt)))
  | .doWhileStmt body test _ =>
    walkExpr ancestry false test
      (walkStmt (.loop :: ancestry) body (known.emit ancestry (.stmt stmt)))
  | .forStmt init test update body _ =>
    let known := known.emit ancestry (.stmt stmt)
    let known := match init with
      | some init => walkStmt ancestry init known
      | none => known
    let known := match test with
      | some test => walkExpr ancestry false test known
      | none => known
    let known := match update with
      | some update => walkExpr ancestry false update known
      | none => known
    walkStmt (.loop :: ancestry) body known
  | .forEachStmt _ _ _ collection body _ =>
    walkStmt (.loop :: ancestry) body
      (walkExpr ancestry false collection (known.emit ancestry (.stmt stmt)))
  | .returnStmt value _ =>
    let known := known.emit ancestry (.stmt stmt)
    match value with
    | some value => walkExpr ancestry false value known
    | none => known
  | .throwStmt value _ => walkExpr ancestry false value (known.emit ancestry (.stmt stmt))
  | .breakStmt _ => known.emit ancestry (.stmt stmt)
  | .continueStmt _ => known.emit ancestry (.stmt stmt)
  | .tryStmt body _ catchBody finallyBody _ =>
    let known := walkStmt (.tryBlock :: ancestry) body (known.emit ancestry (.stmt stmt))
    let known := match catchBody with
      | some catchBody => walkStmt (.tryBlock :: ancestry) catchBody known
      | none => known
    match finallyBody with
    | some finallyBody => walkStmt (.tryBlock :: ancestry) finallyBody known
    | none => known
  | .switchStmt discriminant cases _ =>
    walkCases (.conditional :: ancestry) cases
      (walkExpr ancestry false discriminant (known.emit ancestry (.stmt stmt)))
  | .classDecl name superclass members _ =>
    let known := known.emit ancestry (.stmt stmt)
    let known := match superclass with
      | some base => walkExpr ancestry false base known
      | none => known
    walkMembers ancestry name members known
  | .unknown _ _ => known.emit ancestry (.stmt stmt)
  | .exprStmt e _ => walkExpr ancestry true e (known.emit ancestry (.stmt stmt))

/-- Walks statements in order. -/
def walkStmts (ancestry : List Ancestor) (stmts : List Stmt) (known : Extraction) : Extraction :=
  match stmts with
  | [] => known
  | stmt :: rest => walkStmts ancestry rest (walkStmt ancestry stmt known)

/-- Walks the defaults and the initial values of declarators. -/
def walkDeclarators (ancestry : List Ancestor) (declarators : List Declarator)
    (known : Extraction) : Extraction :=
  match declarators with
  | [] => known
  | .mk target init _ :: rest =>
    let known := walkDefaults ancestry target known
    walkDeclarators ancestry rest <|
      match init with
      | none => known
      | some e =>
        match target.name?, e with
        | some name, .function _ _ _ _ body _ => walkBody (.function name :: ancestry) body known
        | _, other => walkExpr ancestry false other known

/-- Walks the cases of a switch. -/
def walkCases (ancestry : List Ancestor) (cases : List SwitchCase) (known : Extraction) :
    Extraction :=
  match cases with
  | [] => known
  | .mk test body _ :: rest =>
    let known := match test with
      | some test => walkExpr ancestry false test known
      | none => known
    walkCases ancestry rest (walkStmts ancestry body known)

/-- Walks the members of a class. -/
def walkMembers (ancestry : List Ancestor) (className : String) (members : List ClassMember)
    (known : Extraction) : Extraction :=
  match members with
  | [] => known
  | .method name _ function :: rest =>
    walkMembers ancestry className rest <|
      match function with
      | .function _ _ _ _ body _ =>
        walkBody (.function (className ++ "." ++ name) :: ancestry) body known
      | other => walkExpr ancestry false other known
  | .field _ _ value _ :: rest =>
    walkMembers ancestry className rest <|
      match value with
      | some value => walkExpr ancestry false value known
      | none => known

/-- Walks the default values in a pattern. -/
def walkDefaults (ancestry : List Ancestor) (pattern : Pattern) (known : Extraction) :
    Extraction :=
  match pattern with
  | .ident _ _ => known
  | .array elements _ => walkElements ancestry elements known
  | .object properties _ => walkTargets ancestry properties known
  | .rest target _ => walkDefaults ancestry target known
  | .withDefault target value _ =>
    walkExpr ancestry false value (walkDefaults ancestry target known)

/-- Walks the default values in the elements of a pattern. -/
def walkElements (ancestry : List Ancestor) (elements : List (Option Pattern))
    (known : Extraction) : Extraction :=
  match elements with
  | [] => known
  | none :: rest => walkElements ancestry rest known
  | some element :: rest => walkElements ancestry rest (walkDefaults ancestry element known)

/-- Walks the default values in the properties of a pattern. -/
def walkTargets (ancestry : List Ancestor) (properties : List (String × Pattern))
    (known : Extraction) : Extraction :=
  match properties with
  | [] => known
  | (_, target) :: rest => walkTargets ancestry rest (walkDefaults ancestry target known)

/-- Walks the body of a function. -/
def walkBody (ancestry : List Ancestor) (body : FunctionBody) (known : Extraction) :
    Extraction :=
  match body with
  | .block body => walkStmt ancestry body known
  | .expr value => walkExpr ancestry false value known

/-- Walks an expression, which makes a step of its own if it deserves one and
does not have it already. -/
def walkExpr (ancestry : List Ancestor) (hasStep : Bool) (e : Expr) (known : Extraction) :
    Extraction :=
  let known := if hasStep then known else known.emitNested ancestry e
  match e with
  | .bool _ _ | .number _ _ | .string _ _ | .null _ | .regex _ _ _ | .ident _ _ => known
  | .template _ exprs _ => walkExprs ancestry exprs known
  | .list elements _ => walkExprs ancestry elements known
  | .object properties _ => walkProperties ancestry properties known
  | .member object _ _ _ _ => walkExpr ancestry false object known
  | .index object index _ =>
    walkExpr ancestry false index (walkExpr ancestry false object known)
  | .call callee args _ =>
    walkArgs ancestry (callbackOwner callee) args (walkExpr ancestry false callee known)
  | .construct callee args _ =>
    walkArgs ancestry (callbackOwner callee) args (walkExpr ancestry false callee known)
  | .await inner _ => walkExpr ancestry false inner known
  | .function name _ _ _ body _ =>
    walkBody (.function (name.getD "anonymous") :: ancestry) body known
  | .unary _ operand _ => walkExpr ancestry false operand known
  | .update _ _ target _ => walkExpr ancestry false target known
  | .binary _ left right _ =>
    walkExpr ancestry false right (walkExpr ancestry false left known)
  | .assign _ target value _ =>
    walkExpr ancestry false value (walkExpr ancestry false target known)
  | .ternary condition consequent alternate _ =>
    walkExpr ancestry false alternate
      (walkExpr ancestry false consequent (walkExpr ancestry false condition known))
  | .spread inner _ => walkExpr ancestry false inner known
  | .sequence exprs _ => walkExprs ancestry exprs known

/-- Walks expressions in order. -/
def walkExprs (ancestry : List Ancestor) (exprs : List Expr) (known : Extraction) : Extraction :=
  match exprs with
  | [] => known
  | e :: es => walkExprs ancestry es (walkExpr ancestry false e known)

/-- Walks the values of an object. -/
def walkProperties (ancestry : List Ancestor) (properties : List (String × Span × Expr))
    (known : Extraction) : Extraction :=
  match properties with
  | [] => known
  | (_, _, value) :: rest => walkProperties ancestry rest (walkExpr ancestry false value known)

/-- Walks the arguments of a call, whose functions are callbacks. -/
def walkArgs (ancestry : List Ancestor) (owner : String) (args : List Expr)
    (known : Extraction) : Extraction :=
  match args with
  | [] => known
  | arg :: rest =>
    walkArgs ancestry owner rest <|
      match arg with
      | .function _ _ _ _ body _ => walkBody (.callback owner :: ancestry) body known
      | other => walkExpr ancestry false other known

end

/-- The steps, functions and values of a program. -/
def extract (program : Program) : Extraction :=
  walkStmts [] program.body .empty

/-- The steps, functions and values of a script's text. -/
def extractSource (source : String) : Extraction :=
  match parse source with
  | .ok program => extract program
  | .error error => { steps := [.ofParseError error.message error.span.line] }

/-- The steps of a script's text. -/
def stepsOf (source : String) : List Step :=
  (extractSource source).steps

end EventLoop
