import EventLoop.Proofs.Step.Sites

/-!
# The walk over a script

A walk over a script does the same at every site: it declares the functions of
the site, and emits the step that the site deserves (`Extraction.visit`).  It
goes to the sites in the order of the text and leaves none out, but for default
values that it does not look into (`Walked`).

* **Equations.**  The walk looks into optional pieces of syntax and asks
  whether an expression is a function; `walkOption` and `walkValue` give these
  looks a name, so that each theorem follows one function of the walk by the
  cases of the syntax that it walks.
* **Invariants.**  Whatever is kept by emitting steps and declaring functions
  is kept by the walk (`Kept`).
* **Steps.**  `wellMade_extractSource` is what simulations need to know of the
  steps: tasks come to the callback queue only from their timers, and what
  prints does not wait for one.
-/

namespace EventLoop

open Script

/-! ## Equations of the walk

Where the walk looks at an optional piece of syntax, or asks whether an
expression is a function, its equation is stated once, with the look as a
function of its own.
-/

/-- Walks a piece of syntax, if it is there. -/
def walkOption {α : Type} (walk : α → Extraction → Extraction) (piece : Option α)
    (known : Extraction) : Extraction :=
  match piece with
  | some piece => walk piece known
  | none => known

theorem walkStmt_if (ancestry : List Ancestor) (test : Expr) (thenBody : Stmt)
    (elseBody : Option Stmt) (span : Span) (known : Extraction) :
    walkStmt ancestry (.ifStmt test thenBody elseBody span) known =
      walkOption (walkStmt (.conditional :: ancestry)) elseBody
        (walkStmt (.conditional :: ancestry) thenBody
          (walkExpr ancestry false test
            (known.emit ancestry (.stmt (.ifStmt test thenBody elseBody span))))) := by
  cases elseBody <;> rfl

theorem walkStmt_return (ancestry : List Ancestor) (value : Option Expr) (span : Span)
    (known : Extraction) :
    walkStmt ancestry (.returnStmt value span) known =
      walkOption (walkExpr ancestry false) value
        (known.emit ancestry (.stmt (.returnStmt value span))) := by
  cases value <;> rfl

theorem walkStmt_for (ancestry : List Ancestor) (init : Option Stmt) (test update : Option Expr)
    (body : Stmt) (span : Span) (known : Extraction) :
    walkStmt ancestry (.forStmt init test update body span) known =
      walkStmt (.loop :: ancestry) body
        (walkOption (walkExpr ancestry false) update
          (walkOption (walkExpr ancestry false) test
            (walkOption (walkStmt ancestry) init
              (known.emit ancestry (.stmt (.forStmt init test update body span)))))) := by
  cases init <;> cases test <;> cases update <;> rfl

theorem walkStmt_try (ancestry : List Ancestor) (body : Stmt) (caught : Option String)
    (catchBody finallyBody : Option Stmt) (span : Span) (known : Extraction) :
    walkStmt ancestry (.tryStmt body caught catchBody finallyBody span) known =
      walkOption (walkStmt (.tryBlock :: ancestry)) finallyBody
        (walkOption (walkStmt (.tryBlock :: ancestry)) catchBody
          (walkStmt (.tryBlock :: ancestry) body
            (known.emit ancestry (.stmt (.tryStmt body caught catchBody finallyBody span))))) := by
  cases catchBody <;> cases finallyBody <;> rfl

theorem walkStmt_class (ancestry : List Ancestor) (name : String) (superclass : Option Expr)
    (members : List ClassMember) (span : Span) (known : Extraction) :
    walkStmt ancestry (.classDecl name superclass members span) known =
      walkMembers ancestry name members
        (walkOption (walkExpr ancestry false) superclass
          (known.emit ancestry (.stmt (.classDecl name superclass members span)))) := by
  cases superclass <;> rfl

theorem walkCases_cons (ancestry : List Ancestor) (test : Option Expr) (body : List Stmt)
    (span : Span) (rest : List SwitchCase) (known : Extraction) :
    walkCases ancestry (.mk test body span :: rest) known =
      walkCases ancestry rest
        (walkStmts ancestry body (walkOption (walkExpr ancestry false) test known)) := by
  cases test <;> rfl

/-- The body of an expression that is a function. -/
def functionBody? : Expr → Option FunctionBody
  | .function _ _ _ _ body _ => some body
  | _ => none

/-- Walks an expression, or only its body if it is a function. -/
def walkValue (ancestry inner : List Ancestor) (e : Expr) (known : Extraction) : Extraction :=
  match functionBody? e with
  | some body => walkBody inner body known
  | none => walkExpr ancestry false e known

theorem walkArgs_cons (ancestry : List Ancestor) (owner : String) (arg : Expr) (rest : List Expr)
    (known : Extraction) :
    walkArgs ancestry owner (arg :: rest) known =
      walkArgs ancestry owner rest
        (walkValue ancestry (.callback owner :: ancestry) arg known) := by
  cases arg <;> rfl

theorem walkMembers_method (ancestry : List Ancestor) (className name : String) (isStatic : Bool)
    (function : Expr) (rest : List ClassMember) (known : Extraction) :
    walkMembers ancestry className (.method name isStatic function :: rest) known =
      walkMembers ancestry className rest
        (walkValue ancestry (.function (className ++ "." ++ name) :: ancestry) function known) := by
  cases function <;> rfl

theorem walkMembers_field (ancestry : List Ancestor) (className name : String) (isStatic : Bool)
    (value : Option Expr) (span : Span) (rest : List ClassMember) (known : Extraction) :
    walkMembers ancestry className (.field name isStatic value span :: rest) known =
      walkMembers ancestry className rest
        (walkOption (walkExpr ancestry false) value known) := by
  cases value <;> rfl

theorem walkDeclarators_none (ancestry : List Ancestor) (target : Pattern) (span : Span)
    (rest : List Declarator) (known : Extraction) :
    walkDeclarators ancestry (.mk target none span :: rest) known =
      walkDeclarators ancestry rest (walkDefaults ancestry target known) := rfl

/-- Only a function that gets a name is walked as a body. -/
theorem walkDeclarators_some (ancestry : List Ancestor) (target : Pattern) (init : Expr)
    (span : Span) (rest : List Declarator) (known : Extraction) :
    walkDeclarators ancestry (.mk target (some init) span :: rest) known =
      walkDeclarators ancestry rest
        (match target.name? with
         | some name =>
           walkValue ancestry (.function name :: ancestry) init
             (walkDefaults ancestry target known)
         | none => walkExpr ancestry false init (walkDefaults ancestry target known)) := by
  cases target <;> cases init <;> rfl

/-! ## Visits

A walk does the same at every site of the script, and does it in the order of
the sites.
-/

/-- What a walk makes of a site: the functions that it declares are known from
then on, and it gets its step if it deserves one. -/
def Extraction.visit (known : Extraction) (ancestry : List Ancestor) (site : Site) :
    Extraction :=
  let known := site.functions.foldl Extraction.declare known
  match site.due? known.functions with
  | some node => known.emit ancestry node
  | none => known

/-- Declaring functions changes nothing but what functions are known. -/
theorem functions_declareAll (infos : List FunctionInfo) :
    ∀ known : Extraction, infos.foldl Extraction.declare known =
      { known with
        functions := infos.foldl (fun table info => table.insert info.name info)
          known.functions } := by
  induction infos with
  | nil => exact fun _ => rfl
  | cons info rest ih => exact fun known => ih (known.declare info)

theorem isScheduling_eq (known : Extraction) (e : Expr) :
    isScheduling known.functions e = (nestedAction? known e).isSome := by
  have hshape : callShape? { functions := known.functions } e = callShape? known e := by
    cases e <;> rfl
  unfold isScheduling nestedAction?
  rw [hshape]
  cases callShape? known e with
  | none => rfl
  | some shape => cases shape <;> rfl

theorem Extraction.visit_expr (known : Extraction) (ancestry : List Ancestor) (e : Expr) :
    known.visit ancestry (.expr false e) = known.emitNested ancestry e := by
  unfold visit emitNested
  dsimp only [Site.functions, List.foldl_nil, Site.due?]
  rw [isScheduling_eq]
  cases (nestedAction? known e).isSome <;> rfl

theorem declareFunctions_eq (declarators : List Declarator) :
    ∀ known : Extraction, declareFunctions known declarators =
      (declarators.filterMap Site.functionOf?).foldl Extraction.declare known := by
  induction declarators with
  | nil => exact fun _ => rfl
  | cons declarator rest ih =>
      intro known
      rw [declareFunctions, ih, List.filterMap_cons]
      unfold Site.functionOf?
      split <;> rename_i heq <;> simp_all

/-- One extraction comes from another one by visits to sites, in order. -/
inductive Trail : List Site → Extraction → Extraction → Prop where
  | nil (known : Extraction) : Trail [] known known
  | cons {site : Site} {rest : List Site} {known last : Extraction} (ancestry : List Ancestor)
      (h : Trail rest (known.visit ancestry site) last) : Trail (site :: rest) known last

theorem Trail.append {first rest : List Site} {known middle last : Extraction}
    (h : Trail first known middle) (hrest : Trail rest middle last) :
    Trail (first ++ rest) known last := by
  induction h with
  | nil known => exact hrest
  | cons ancestry _ ih => exact .cons ancestry (ih hrest)

/-- A visit to a pattern makes nothing of it. -/
theorem OnlyPatterns.trail {sites : List Site} (h : OnlyPatterns sites) (known : Extraction) :
    Trail sites known known := by
  induction sites with
  | nil => exact .nil known
  | cons site rest ih =>
      obtain ⟨⟨pattern, rfl⟩, hrest⟩ := List.forall_mem_cons.1 h
      exact .cons [] (ih hrest)

/-- A walk visits sites in order.  It leaves sites out only if there are
default values in patterns. -/
def Walked (sites : List Site) (known last : Extraction) : Prop :=
  ∃ visited : List Site, visited.Sublist sites ∧ (NoDefaults sites → visited = sites) ∧
    Trail visited known last

/-- A walk that visits the sites of a piece of syntax that are looked at,
whatever sites come behind them. -/
structure Covers (sites visited : List Site) : Prop where
  sublist : visited.Sublist sites
  eq_of_noDefaults : NoDefaults sites → visited = sites
  lookedAt_append : ∀ rest, lookedAt 0 (sites ++ rest) = visited ++ lookedAt 0 rest

namespace Covers

variable {sites visited first firstVisited rest restVisited : List Site} {site : Site}

theorem nil : Covers [] [] :=
  ⟨.slnil, fun _ => rfl, fun _ => rfl⟩

theorem append (h : Covers first firstVisited) (hrest : Covers rest restVisited) :
    Covers (first ++ rest) (firstVisited ++ restVisited) := by
  refine ⟨h.sublist.append hrest.sublist, fun hnone => ?_, fun more => ?_⟩
  · rw [h.eq_of_noDefaults hnone.of_append.1, hrest.eq_of_noDefaults hnone.of_append.2]
  · rw [List.append_assoc, h.lookedAt_append, hrest.lookedAt_append, List.append_assoc]

/-- Of the sites that are passed over, only the patterns are looked at. -/
theorem lookedAt_passing (passed rest : List Site) :
    lookedAt passed.length (passed ++ rest) = passed.filter Site.isPattern ++ lookedAt 0 rest := by
  induction passed with
  | nil => rfl
  | cons site passed ih =>
      rw [List.length_cons, List.cons_append, lookedAt, ih]
      by_cases hpattern : site.isPattern = true
      · rw [if_pos hpattern, List.filter_cons_of_pos hpattern, List.cons_append]
      · rw [if_neg hpattern, List.filter_cons_of_neg hpattern]

theorem consInputs (hinputs : NoDefaults site.inputs → OnlyPatterns site.inputs)
    (h : Covers rest restVisited) :
    Covers (site :: (site.inputs ++ rest))
      (site :: (site.inputs.filter Site.isPattern ++ restVisited)) := by
  refine ⟨(List.filter_sublist.append h.sublist).cons_cons site, fun hnone => ?_, fun more => ?_⟩
  · obtain ⟨hnoneInputs, hnoneRest⟩ := hnone.of_cons.of_append
    have hall : site.inputs.filter Site.isPattern = site.inputs := by
      refine List.filter_eq_self.2 fun other hother => ?_
      obtain ⟨pattern, rfl⟩ := hinputs hnoneInputs other hother
      rfl
    rw [hall, h.eq_of_noDefaults hnoneRest]
  · rw [List.cons_append, List.append_assoc, lookedAt, lookedAt_passing, h.lookedAt_append,
      List.cons_append, List.append_assoc]

theorem cons (hinputs : site.inputs = []) (h : Covers rest restVisited) :
    Covers (site :: rest) (site :: restVisited) := by
  have hnothing : OnlyPatterns site.inputs := by simp [hinputs, OnlyPatterns]
  have hcovers := consInputs (fun _ => hnothing) h
  rwa [hinputs] at hcovers

end Covers

/-- The sites of a piece of syntax that are looked at are visited. -/
def Toured (sites : List Site) (known last : Extraction) : Prop :=
  ∃ visited : List Site, Covers sites visited ∧ Trail visited known last

namespace Toured

variable {first rest : List Site} {known middle last : Extraction}

theorem nil (known : Extraction) : Toured [] known known :=
  ⟨[], .nil, .nil known⟩

theorem cons {site : Site} (ancestry : List Ancestor)
    (h : Toured rest (known.visit ancestry site) last) (hinputs : site.inputs = [] := by rfl) :
    Toured (site :: rest) known last := by
  obtain ⟨visited, hcovers, htrail⟩ := h
  exact ⟨site :: visited, hcovers.cons hinputs, .cons ancestry htrail⟩

theorem append (h : Toured first known middle) (hrest : Toured rest middle last) :
    Toured (first ++ rest) known last := by
  obtain ⟨visited, hcovers, htrail⟩ := h
  obtain ⟨others, hcoversRest, htrailRest⟩ := hrest
  exact ⟨visited ++ others, hcovers.append hcoversRest, htrail.append htrailRest⟩

/-- Patterns that are bound without a declaration are passed over: a visit would
make nothing of them. -/
theorem consInputs {site : Site} (ancestry : List Ancestor)
    (h : Toured rest (known.visit ancestry site) last)
    (hinputs : NoDefaults site.inputs → OnlyPatterns site.inputs) :
    Toured (site :: (site.inputs ++ rest)) known last := by
  obtain ⟨visited, hcovers, htrail⟩ := h
  have hpatterns : OnlyPatterns (site.inputs.filter Site.isPattern) := by
    intro other hother
    obtain ⟨-, hpattern⟩ := List.mem_filter.1 hother
    cases other with
    | pattern pattern => exact ⟨pattern, rfl⟩
    | stmt | expr => contradiction
  exact ⟨_, hcovers.consInputs hinputs, .cons ancestry ((hpatterns.trail _).append htrail)⟩

/-- An expression is visited, unless it has its step already, and then its parts
are. -/
theorem consExpr {ancestry : List Ancestor} {whole : Bool} {e : Expr}
    (h : Toured rest (if whole then known else known.emitNested ancestry e) last)
    (hinputs : (Site.expr whole e).inputs = [] := by rfl) :
    Toured (.expr whole e :: rest) known last := by
  refine .cons ancestry ?_ hinputs
  cases whole with
  | true => exact h
  | false => rwa [known.visit_expr ancestry e]

/-- A function is itself never due, so that it makes no difference whether the
walk begins with it or with its body. -/
theorem function {params : List Pattern} {body : FunctionBody} (name : Option String)
    (isAsync isArrow : Bool) (span : Span) (whole : Bool)
    (h : Toured (sitesOfBody body) known last) :
    Toured (sitesOfExpr whole (.function name params isAsync isArrow body span)) known last := by
  have hvisit : known.visit [] (.expr whole (.function name params isAsync isArrow body span)) =
      known := by
    cases whole <;> rfl
  rw [← hvisit] at h
  exact consInputs [] h (onlyPatterns_patterns params)

mutual

theorem stmt (ancestry : List Ancestor) (stmt : Stmt) (known : Extraction) :
    Toured (sitesOfStmt stmt) known (walkStmt ancestry stmt known) := by
  match stmt with
  | .block body _ => exact .cons ancestry (stmts ancestry body known)
  | .emptyStmt _ => exact .cons ancestry (.nil known)
  | .labeled _ body _ => exact .cons ancestry (Toured.stmt ancestry body known)
  | .declare kind declarators span =>
      have hvisit : known.visit ancestry (.stmt (.declare kind declarators span)) =
          (declareFunctions known declarators).emit ancestry
            (.stmt (.declare kind declarators span)) := by
        rw [declareFunctions_eq]
        rfl
      refine .cons ancestry ?_
      rw [hvisit]
      exact Toured.declarators ancestry declarators _
  | .functionDecl _ params _ body _ =>
      exact .consInputs ancestry (Toured.stmt _ body _) (onlyPatterns_patterns params)
  | .ifStmt test thenBody elseBody span =>
      rw [walkStmt_if]
      exact .cons ancestry ((Toured.expr ancestry false test _).append
        ((Toured.stmt _ thenBody _).append (optionStmt _ elseBody _)))
  | .whileStmt test body _ =>
      exact .cons ancestry ((Toured.expr ancestry false test _).append (Toured.stmt _ body _))
  | .doWhileStmt body test _ =>
      exact .cons ancestry ((Toured.stmt _ body _).append (Toured.expr ancestry false test _))
  | .forStmt init test update body span =>
      rw [walkStmt_for]
      exact .cons ancestry ((optionStmt ancestry init _).append
        ((optionExpr ancestry test _).append
          ((optionExpr ancestry update _).append (Toured.stmt _ body _))))
  | .forEachStmt _ _ binding collection body _ =>
      exact .consInputs ancestry
        ((Toured.expr ancestry false collection _).append (Toured.stmt _ body _))
        (onlyPatterns_pattern binding)
  | .returnStmt value span =>
      rw [walkStmt_return]
      exact .cons ancestry (optionExpr ancestry value _)
  | .throwStmt value _ => exact .cons ancestry (Toured.expr ancestry false value _)
  | .breakStmt _ | .continueStmt _ | .unknown _ _ => exact .cons ancestry (.nil _)
  | .tryStmt body caught catchBody finallyBody span =>
      rw [walkStmt_try]
      exact .cons ancestry ((Toured.stmt _ body _).append
        ((optionStmt _ catchBody _).append (optionStmt _ finallyBody _)))
  | .switchStmt discriminant cases _ =>
      exact .cons ancestry ((Toured.expr ancestry false discriminant _).append
        (Toured.cases _ cases _))
  | .classDecl name superclass members span =>
      rw [walkStmt_class]
      exact .cons ancestry ((optionExpr ancestry superclass _).append
        (Toured.members ancestry name members _))
  | .exprStmt e _ => exact .cons ancestry (Toured.expr ancestry true e _)

theorem stmts (ancestry : List Ancestor) (stmts : List Stmt) (known : Extraction) :
    Toured (sitesOfStmts stmts) known (walkStmts ancestry stmts known) := by
  match stmts with
  | [] => exact .nil known
  | stmt :: rest =>
      exact (Toured.stmt ancestry stmt known).append (Toured.stmts ancestry rest _)

theorem optionStmt (ancestry : List Ancestor) (piece : Option Stmt) (known : Extraction) :
    Toured (sitesOfStmt? piece) known (walkOption (walkStmt ancestry) piece known) := by
  match piece with
  | none => exact .nil known
  | some stmt => exact Toured.stmt ancestry stmt known

theorem optionExpr (ancestry : List Ancestor) (piece : Option Expr) (known : Extraction) :
    Toured (sitesOfExpr? piece) known (walkOption (walkExpr ancestry false) piece known) := by
  match piece with
  | none => exact .nil known
  | some e => exact Toured.expr ancestry false e known

theorem value {ancestry : List Ancestor} (inner : List Ancestor) (e : Expr) (known : Extraction)
    (h : Toured (sitesOfExpr false e) known (walkExpr ancestry false e known)) :
    Toured (sitesOfExpr false e) known (walkValue ancestry inner e known) := by
  cases e with
  | function name params isAsync isArrow body span =>
      exact .function name isAsync isArrow span false (Toured.body inner body known)
  | _ => exact h

theorem declarators (ancestry : List Ancestor) (declarators : List Declarator)
    (known : Extraction) :
    Toured (sitesOfDeclarators declarators) known
      (walkDeclarators ancestry declarators known) := by
  match declarators with
  | [] => exact .nil known
  | .mk target none span :: rest =>
      rw [walkDeclarators_none]
      exact (defaults ancestry target known).append
        ((Toured.nil _).append (Toured.declarators ancestry rest _))
  | .mk target (some e) span :: rest =>
      rw [walkDeclarators_some]
      refine (defaults ancestry target known).append
        (.append ?_ (Toured.declarators ancestry rest _))
      split
      · exact Toured.value _ e _ (Toured.expr ancestry false e _)
      · exact Toured.expr ancestry false e _

theorem cases (ancestry : List Ancestor) (cases : List SwitchCase) (known : Extraction) :
    Toured (sitesOfCases cases) known (walkCases ancestry cases known) := by
  match cases with
  | [] => exact .nil known
  | .mk test body span :: rest =>
      rw [walkCases_cons]
      exact (optionExpr ancestry test known).append
        ((Toured.stmts ancestry body _).append (Toured.cases ancestry rest _))

theorem members (ancestry : List Ancestor) (className : String) (members : List ClassMember)
    (known : Extraction) :
    Toured (sitesOfMembers members) known (walkMembers ancestry className members known) := by
  match members with
  | [] => exact .nil known
  | .method name isStatic function :: rest =>
      rw [walkMembers_method]
      exact (Toured.value _ function known (Toured.expr ancestry false function known)).append
        (Toured.members ancestry className rest _)
  | .field name isStatic value span :: rest =>
      rw [walkMembers_field]
      exact (optionExpr ancestry value known).append (Toured.members ancestry className rest _)

theorem defaults (ancestry : List Ancestor) (pattern : Pattern) (known : Extraction) :
    Toured (sitesOfPattern pattern) known (walkDefaults ancestry pattern known) := by
  match pattern with
  | .ident _ _ => exact .cons ancestry (.nil known)
  | .array elements _ => exact .cons ancestry (Toured.elements ancestry elements known)
  | .object properties _ => exact .cons ancestry (targets ancestry properties known)
  | .rest target _ => exact .cons ancestry (defaults ancestry target known)
  | .withDefault target value _ =>
      exact .cons ancestry
        ((defaults ancestry target known).append (Toured.expr ancestry false value _))

theorem elements (ancestry : List Ancestor) (elements : List (Option Pattern))
    (known : Extraction) :
    Toured (sitesOfElements elements) known (walkElements ancestry elements known) := by
  match elements with
  | [] => exact .nil known
  | none :: rest => exact Toured.elements ancestry rest known
  | some element :: rest =>
      exact (defaults ancestry element known).append (Toured.elements ancestry rest _)

theorem targets (ancestry : List Ancestor) (properties : List (String × Pattern))
    (known : Extraction) :
    Toured (sitesOfTargets properties) known (walkTargets ancestry properties known) := by
  match properties with
  | [] => exact .nil known
  | (_, target) :: rest =>
      exact (defaults ancestry target known).append (targets ancestry rest _)

theorem body (ancestry : List Ancestor) (body : FunctionBody) (known : Extraction) :
    Toured (sitesOfBody body) known (walkBody ancestry body known) := by
  match body with
  | .block body => exact Toured.stmt ancestry body known
  | .expr value => exact Toured.expr ancestry false value known

theorem expr (ancestry : List Ancestor) (whole : Bool) (e : Expr) (known : Extraction) :
    Toured (sitesOfExpr whole e) known (walkExpr ancestry whole e known) := by
  match e with
  | .bool _ _ | .number _ _ | .string _ _ | .null _ | .regex _ _ _ | .ident _ _ =>
      exact .consExpr (.nil _)
  | .template _ parts _ | .list parts _ | .sequence parts _ =>
      exact .consExpr (exprs ancestry parts _)
  | .object parts _ => exact .consExpr (properties ancestry parts _)
  | .member inner _ _ _ _ | .await inner _ | .unary _ inner _ | .update _ _ inner _
  | .spread inner _ =>
      exact .consExpr (Toured.expr ancestry false inner _)
  | .index first second _ | .binary _ first second _ | .assign _ first second _ =>
      exact .consExpr ((Toured.expr ancestry false first _).append
        (Toured.expr ancestry false second _))
  | .call callee parts _ | .construct callee parts _ =>
      exact .consExpr ((Toured.expr ancestry false callee _).append
        (args ancestry (callbackOwner callee) parts _))
  | .function name params isAsync isArrow inner span =>
      have hvisit : (if whole then known else
          known.emitNested ancestry (.function name params isAsync isArrow inner span)) = known := by
        cases whole <;> rfl
      unfold walkExpr
      dsimp only
      rw [hvisit]
      exact .function name isAsync isArrow span whole (Toured.body _ inner known)
  | .ternary condition consequent alternate _ =>
      exact .consExpr ((Toured.expr ancestry false condition _).append
        ((Toured.expr ancestry false consequent _).append
          (Toured.expr ancestry false alternate _)))

theorem exprs (ancestry : List Ancestor) (parts : List Expr) (known : Extraction) :
    Toured (sitesOfExprs parts) known (walkExprs ancestry parts known) := by
  match parts with
  | [] => exact .nil known
  | e :: rest =>
      exact (Toured.expr ancestry false e known).append (exprs ancestry rest _)

theorem properties (ancestry : List Ancestor) (parts : List (String × Span × Expr))
    (known : Extraction) :
    Toured (sitesOfProperties parts) known (walkProperties ancestry parts known) := by
  match parts with
  | [] => exact .nil known
  | (_, _, value) :: rest =>
      exact (Toured.expr ancestry false value known).append (properties ancestry rest _)

theorem args (ancestry : List Ancestor) (owner : String) (parts : List Expr)
    (known : Extraction) :
    Toured (sitesOfExprs parts) known (walkArgs ancestry owner parts known) := by
  match parts with
  | [] => exact .nil known
  | arg :: rest =>
      rw [walkArgs_cons]
      exact (Toured.value _ arg known (Toured.expr ancestry false arg known)).append
        (args ancestry owner rest _)

end

end Toured

/-- The steps of a program come from visits to the sites that are looked at. -/
theorem trail_extract (program : Program) :
    Trail (lookedAt 0 program.sites) .empty (extract program) := by
  obtain ⟨visited, hcovers, htrail⟩ := Toured.stmts [] program.body .empty
  have hvisited := hcovers.lookedAt_append []
  rw [List.append_nil, lookedAt, List.append_nil] at hvisited
  rw [Program.sites, hvisited]
  exact htrail

/-- The steps of a program come from visits to its sites. -/
theorem walked_extract (program : Program) :
    Walked program.sites .empty (extract program) := by
  obtain ⟨visited, hcovers, htrail⟩ := Toured.stmts [] program.body .empty
  exact ⟨visited, hcovers.sublist, hcovers.eq_of_noDefaults, htrail⟩

/-! ## What a walk keeps -/

/-- What is not lost by emitting a step or declaring a function. -/
structure Kept (property : Extraction → Prop) : Prop where
  emit : ∀ known ancestry node, property known → property (known.emit ancestry node)
  declare : ∀ known info, property known → property (known.declare info)

namespace Kept

variable {property : Extraction → Prop}

theorem visit (h : Kept property) {known : Extraction} (hknown : property known)
    (ancestry : List Ancestor) (site : Site) : property (known.visit ancestry site) := by
  have hdeclared : property (site.functions.foldl Extraction.declare known) := by
    generalize site.functions = infos
    induction infos generalizing known with
    | nil => exact hknown
    | cons info rest ih => exact ih (h.declare known info hknown)
  unfold Extraction.visit
  dsimp only
  split
  · exact h.emit _ ancestry _ hdeclared
  · exact hdeclared

theorem trail (h : Kept property) {sites : List Site} {known last : Extraction}
    (htrail : Trail sites known last) (hknown : property known) : property last := by
  induction htrail with
  | nil known => exact hknown
  | @cons site rest known last ancestry _ ih => exact ih (h.visit hknown ancestry site)

/-- What is kept holds of the extraction of a program. -/
theorem extract (h : Kept property) (hempty : property .empty) (program : Program) :
    property (EventLoop.extract program) := by
  obtain ⟨visited, -, -, htrail⟩ := walked_extract program
  exact h.trail htrail hempty

end Kept

/-! ## What steps are like -/

/-- No step goes to the callback queue, where tasks come only from their
timers; and a step that prints does so on the call stack. -/
structure Step.WellMade (step : Step) : Prop where
  targetQueue_ne : step.targetQueue ≠ .callbackQueue
  console : step.action = .console →
    step.targetQueue = .callStack ∧ step.outputPayload.isSome = true

theorem wellMade_callStep (shape : CallShape) (known : Extraction) (kind : NodeKind) (e : Expr) :
    (shape.step known kind e).WellMade := by
  cases shape <;> exact ⟨by simp [CallShape.step], by simp [CallShape.step, CallShape.action]⟩

theorem wellMade_classifyExpr (known : Extraction) (kind : NodeKind) (e : Expr) :
    (classifyExpr known kind e).WellMade := by
  unfold classifyExpr
  dsimp only
  split
  · exact ⟨by simp, by simp⟩
  · exact ⟨by simp, by simp⟩
  · split
    · exact wellMade_callStep _ known kind e
    · exact ⟨by simp, by simp⟩

theorem wellMade_classifyStmt (known : Extraction) (stmt : Stmt) :
    (classifyStmt known stmt).WellMade := by
  fun_induction classifyStmt known stmt with
  | case17 label body span step ih => exact ⟨ih.targetQueue_ne, ih.console⟩
  | case19 e span => exact wellMade_classifyExpr known _ e
  | _ => exact ⟨Queue.noConfusion, Action.noConfusion⟩

theorem Step.WellMade.placedIn {step : Step} (h : step.WellMade) (ancestry : List Ancestor) :
    (step.placedIn ancestry).WellMade := by
  cases ancestry with
  | nil => exact h
  | cons ancestor rest => exact ⟨h.targetQueue_ne, h.console⟩

theorem boundVariables_placedIn (step : Step) (ancestry : List Ancestor) :
    (step.placedIn ancestry).boundVariables = step.boundVariables := by
  cases ancestry <;> rfl

theorem wellMade_classify (known : Extraction) (ancestry : List Ancestor) (node : Node) :
    (classify known ancestry node).WellMade := by
  unfold classify
  refine Step.WellMade.placedIn ?_ ancestry
  split
  · exact wellMade_classifyStmt known _
  · exact wellMade_classifyExpr known _ _

theorem wellMade_extractSource (source : String) :
    ∀ step ∈ (extractSource source).steps, step.WellMade := by
  have hkept : Kept fun known => ∀ step ∈ known.steps, step.WellMade := by
    refine ⟨?_, fun known info hknown => hknown⟩
    intro known ancestry node hknown step hstep
    rcases List.mem_append.1 hstep with hstep | hstep
    · exact hknown step hstep
    · rw [List.mem_singleton.1 hstep]
      exact wellMade_classify known ancestry node
  unfold extractSource
  split
  · exact hkept.extract (by simp [Extraction.empty]) _
  · intro step hstep
    rw [List.mem_singleton.1 hstep]
    exact ⟨Queue.noConfusion, Action.noConfusion⟩

end EventLoop
