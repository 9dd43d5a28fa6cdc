import EventLoop.Step.Extract

/-!
# The sites of a script

A site is a statement, an expression or a pattern at its place in a script.
`Program.sites` lists all of them in the order of the text, whatever they are
and wherever they occur: each node comes before its parts, and nothing else is
said about any kind of node.  What a walk over the script does is told by this
list.

* `Site.due?` is the node for which a site deserves a step.  Statements do,
  unless they only lead to what they contain; expressions do if they matter for
  scheduling, but for the expression that an expression statement consists of.
* `Site.functions` are the functions that a site declares.  Whether a call
  matters for scheduling depends on the functions declared up to its site.
-/

namespace EventLoop

open Script

/-- A node of a script at its place. -/
inductive Site where
  | stmt (value : Stmt)
  /-- An expression, which is the whole of an expression statement or not. -/
  | expr (whole : Bool) (value : Expr)
  | pattern (value : Pattern)

/-! ## All sites -/

mutual

def sitesOfStmt (stmt : Stmt) : List Site :=
  .stmt stmt :: match stmt with
  | .block body _ => sitesOfStmts body
  | .declare _ declarators _ => sitesOfDeclarators declarators
  | .functionDecl _ params _ body _ => sitesOfPatterns params ++ sitesOfStmt body
  | .ifStmt test thenBody elseBody _ =>
    sitesOfExpr false test ++ (sitesOfStmt thenBody ++ sitesOfStmt? elseBody)
  | .whileStmt test body _ => sitesOfExpr false test ++ sitesOfStmt body
  | .doWhileStmt body test _ => sitesOfStmt body ++ sitesOfExpr false test
  | .forStmt init test update body _ =>
    sitesOfStmt? init ++ (sitesOfExpr? test ++ (sitesOfExpr? update ++ sitesOfStmt body))
  | .forEachStmt _ _ binding collection body _ =>
    sitesOfPattern binding ++ (sitesOfExpr false collection ++ sitesOfStmt body)
  | .returnStmt value _ => sitesOfExpr? value
  | .throwStmt value _ => sitesOfExpr false value
  | .tryStmt body _ catchBody finallyBody _ =>
    sitesOfStmt body ++ (sitesOfStmt? catchBody ++ sitesOfStmt? finallyBody)
  | .exprStmt e _ => sitesOfExpr true e
  | .switchStmt discriminant cases _ => sitesOfExpr false discriminant ++ sitesOfCases cases
  | .classDecl _ superclass members _ => sitesOfExpr? superclass ++ sitesOfMembers members
  | .labeled _ body _ => sitesOfStmt body
  | .breakStmt _ | .continueStmt _ | .emptyStmt _ | .unknown _ _ => []

def sitesOfStmts : List Stmt → List Site
  | [] => []
  | stmt :: rest => sitesOfStmt stmt ++ sitesOfStmts rest

def sitesOfStmt? : Option Stmt → List Site
  | none => []
  | some stmt => sitesOfStmt stmt

def sitesOfDeclarators : List Declarator → List Site
  | [] => []
  | .mk target init _ :: rest =>
    sitesOfPattern target ++ (sitesOfExpr? init ++ sitesOfDeclarators rest)

def sitesOfCases : List SwitchCase → List Site
  | [] => []
  | .mk test body _ :: rest => sitesOfExpr? test ++ (sitesOfStmts body ++ sitesOfCases rest)

def sitesOfMembers : List ClassMember → List Site
  | [] => []
  | .method _ _ function :: rest => sitesOfExpr false function ++ sitesOfMembers rest
  | .field _ _ value _ :: rest => sitesOfExpr? value ++ sitesOfMembers rest

def sitesOfPattern (pattern : Pattern) : List Site :=
  .pattern pattern :: match pattern with
  | .ident _ _ => []
  | .array elements _ => sitesOfElements elements
  | .object properties _ => sitesOfTargets properties
  | .rest target _ => sitesOfPattern target
  | .withDefault target value _ => sitesOfPattern target ++ sitesOfExpr false value

def sitesOfPatterns : List Pattern → List Site
  | [] => []
  | pattern :: rest => sitesOfPattern pattern ++ sitesOfPatterns rest

def sitesOfElements : List (Option Pattern) → List Site
  | [] => []
  | none :: rest => sitesOfElements rest
  | some element :: rest => sitesOfPattern element ++ sitesOfElements rest

def sitesOfTargets : List (String × Pattern) → List Site
  | [] => []
  | (_, target) :: rest => sitesOfPattern target ++ sitesOfTargets rest

def sitesOfBody : FunctionBody → List Site
  | .block body => sitesOfStmt body
  | .expr value => sitesOfExpr false value

def sitesOfExpr (whole : Bool) (e : Expr) : List Site :=
  .expr whole e :: match e with
  | .bool _ _ | .number _ _ | .string _ _ | .null _ | .regex _ _ _ | .ident _ _ => []
  | .template _ exprs _ => sitesOfExprs exprs
  | .list elements _ => sitesOfExprs elements
  | .object properties _ => sitesOfProperties properties
  | .member object _ _ _ _ => sitesOfExpr false object
  | .index object index _ => sitesOfExpr false object ++ sitesOfExpr false index
  | .call callee args _ => sitesOfExpr false callee ++ sitesOfExprs args
  | .construct callee args _ => sitesOfExpr false callee ++ sitesOfExprs args
  | .await inner _ => sitesOfExpr false inner
  | .function _ params _ _ body _ => sitesOfPatterns params ++ sitesOfBody body
  | .unary _ operand _ => sitesOfExpr false operand
  | .update _ _ target _ => sitesOfExpr false target
  | .binary _ left right _ => sitesOfExpr false left ++ sitesOfExpr false right
  | .assign _ target value _ => sitesOfExpr false target ++ sitesOfExpr false value
  | .ternary condition consequent alternate _ =>
    sitesOfExpr false condition ++ (sitesOfExpr false consequent ++ sitesOfExpr false alternate)
  | .spread inner _ => sitesOfExpr false inner
  | .sequence exprs _ => sitesOfExprs exprs

def sitesOfExpr? : Option Expr → List Site
  | none => []
  | some e => sitesOfExpr false e

def sitesOfExprs : List Expr → List Site
  | [] => []
  | e :: rest => sitesOfExpr false e ++ sitesOfExprs rest

def sitesOfProperties : List (String × Span × Expr) → List Site
  | [] => []
  | (_, _, value) :: rest => sitesOfExpr false value ++ sitesOfProperties rest

end

/-- All sites of a program, in the order of the text. -/
def Script.Program.sites (program : Program) : List Site :=
  sitesOfStmts program.body

/-! ## What a site deserves -/

/-- Whether an expression matters for scheduling: an await, and a call or a
construction that is console output, a timer, a network request, deferred work
or the call of a declared function. -/
def isScheduling (functions : Table FunctionInfo) (e : Expr) : Bool :=
  match callShape? { functions } e with
  | some .await | some .console | some (.timer _) | some (.network _) | some .deferred
  | some (.declared _) => true
  | some .other | none => false

namespace Site

/-- The node of the step that a site deserves. -/
def due? (functions : Table FunctionInfo) : Site → Option Node
  | .stmt (.block _ _) | .stmt (.emptyStmt _) | .stmt (.labeled _ _ _) => none
  | .stmt value => some (.stmt value)
  | .expr false e => if isScheduling functions e then some (.expr e) else none
  | .expr true _ | .pattern _ => none

/-- The function that a declarator gives a name to. -/
def functionOf? (declarator : Declarator) : Option FunctionInfo :=
  match declarator.target.name?, declarator.init with
  | some name, some (.function _ params isAsync _ _ _) =>
    some (functionInfo name params isAsync declarator.span)
  | _, _ => none

/-- The functions that a site declares. -/
def functions : Site → List FunctionInfo
  | .stmt (.declare _ declarators _) => declarators.filterMap functionOf?
  | .stmt (.functionDecl name params isAsync _ span) => [functionInfo name params isAsync span]
  | _ => []

/-- Whether a site is a pattern with a default value. -/
def isDefault : Site → Bool
  | .pattern (.withDefault _ _ _) => true
  | _ => false

/-- Whether a site is a pattern. -/
def isPattern : Site → Bool
  | .pattern _ => true
  | _ => false

/-- The sites of the patterns that a site binds without a declaration: the
parameters of a function, or the variable of a loop over a collection.  They come
directly behind the site. -/
def inputs : Site → List Site
  | .stmt (.functionDecl _ params _ _ _) => sitesOfPatterns params
  | .stmt (.forEachStmt _ _ binding _ _ _) => sitesOfPattern binding
  | .expr _ (.function _ params _ _ _ _) => sitesOfPatterns params
  | _ => []

end Site

/-- The sites of a list that are looked at, where of the first so many ones only
patterns are.  The default values in the parameters of a function and in the
variable of a loop are passed over. -/
def lookedAt : Nat → List Site → List Site
  | _, [] => []
  | 0, site :: rest => site :: lookedAt site.inputs.length rest
  | passing + 1, site :: rest =>
    if site.isPattern then site :: lookedAt passing rest else lookedAt passing rest

/-! ## Sites of patterns -/

/-- No pattern of the sites has a default value. -/
def NoDefaults (sites : List Site) : Prop :=
  ∀ site ∈ sites, site.isDefault = false

instance (sites : List Site) : Decidable (NoDefaults sites) :=
  inferInstanceAs (Decidable (∀ site ∈ sites, site.isDefault = false))

theorem NoDefaults.of_append {first rest : List Site} (h : NoDefaults (first ++ rest)) :
    NoDefaults first ∧ NoDefaults rest :=
  List.forall_mem_append.1 h

theorem NoDefaults.of_cons {site : Site} {rest : List Site} (h : NoDefaults (site :: rest)) :
    NoDefaults rest :=
  fun other hother => h other (List.mem_cons_of_mem site hother)

/-- There are only patterns among the sites. -/
def OnlyPatterns (sites : List Site) : Prop :=
  ∀ site ∈ sites, ∃ pattern, site = .pattern pattern

theorem OnlyPatterns.append {first rest : List Site} (h : OnlyPatterns first)
    (hrest : OnlyPatterns rest) : OnlyPatterns (first ++ rest) :=
  List.forall_mem_append.2 ⟨h, hrest⟩

theorem OnlyPatterns.cons {pattern : Pattern} {rest : List Site} (h : OnlyPatterns rest) :
    OnlyPatterns (.pattern pattern :: rest) :=
  List.forall_mem_cons.2 ⟨⟨pattern, rfl⟩, h⟩

mutual

/-- A pattern without default values consists of patterns. -/
theorem onlyPatterns_pattern (pattern : Pattern) (h : NoDefaults (sitesOfPattern pattern)) :
    OnlyPatterns (sitesOfPattern pattern) := by
  match pattern with
  | .ident name span => exact .cons (by simp [OnlyPatterns])
  | .array elements span => exact .cons (onlyPatterns_elements elements h.of_cons)
  | .object properties span => exact .cons (onlyPatterns_targets properties h.of_cons)
  | .rest target span => exact .cons (onlyPatterns_pattern target h.of_cons)
  | .withDefault target value span => exact nomatch h _ List.mem_cons_self

theorem onlyPatterns_elements (elements : List (Option Pattern))
    (h : NoDefaults (sitesOfElements elements)) : OnlyPatterns (sitesOfElements elements) := by
  match elements with
  | [] => simp [sitesOfElements, OnlyPatterns]
  | none :: rest => exact onlyPatterns_elements rest h
  | some element :: rest =>
      obtain ⟨helement, hrest⟩ := h.of_append
      exact (onlyPatterns_pattern element helement).append (onlyPatterns_elements rest hrest)

theorem onlyPatterns_targets (properties : List (String × Pattern))
    (h : NoDefaults (sitesOfTargets properties)) : OnlyPatterns (sitesOfTargets properties) := by
  match properties with
  | [] => simp [sitesOfTargets, OnlyPatterns]
  | (key, target) :: rest =>
      obtain ⟨htarget, hrest⟩ := h.of_append
      exact (onlyPatterns_pattern target htarget).append (onlyPatterns_targets rest hrest)

end

theorem onlyPatterns_patterns (patterns : List Pattern)
    (h : NoDefaults (sitesOfPatterns patterns)) : OnlyPatterns (sitesOfPatterns patterns) := by
  induction patterns with
  | nil => simp [sitesOfPatterns, OnlyPatterns]
  | cons pattern rest ih =>
      obtain ⟨hpattern, hrest⟩ := h.of_append
      exact (onlyPatterns_pattern pattern hpattern).append (ih hrest)

end EventLoop
