import EventLoop.Proofs.Script.Shift
import EventLoop.Proofs.Step.Face
import EventLoop.Proofs.Step.Walk

/-!
# Steps further down

A program that is read further down makes the same steps, on later lines.  Its nodes have the
same faces, and of what is known of a place, steps do not use the lines (`classifyStmt_lower`).
So the step of a node is the same but for its line (`classify_shift`), and walks that start with
the same knowledge keep it the same, function by function of the walk (`extract_shift`).
-/

namespace EventLoop

open Script

/-! ## Tables whose values are changed -/

section Tables

variable {α β : Type} (f : α → β)

theorem insertEntry_map (name : String) (value : α) (entries : List (String × α)) :
    insertEntry name (f value) (entries.map (Prod.map id f)) =
      (insertEntry name value entries).map (Prod.map id f) := by
  induction entries with
  | nil => rfl
  | cons entry rest ih =>
      rw [List.map_cons, insertEntry, insertEntry, ih]
      dsimp only [Prod.map_fst, id]
      split
      · rfl
      · split <;> rfl

namespace Table

/-- A table with every value changed in the same way. -/
def map (table : Table α) : Table β :=
  ⟨table.entries.map (Prod.map id f), List.pairwise_map.2 table.ordered⟩

theorem insert_map (table : Table α) (name : String) (value : α) :
    (table.map f).insert name (f value) = (table.insert name value).map f :=
  Table.ext (insertEntry_map f name value table.entries)

theorem get?_map (table : Table α) (name : String) :
    (table.map f).get? name = (table.get? name).map f := by
  have hlookup (entries : List (String × α)) :
      (entries.map (Prod.map id f)).lookup name = (entries.lookup name).map f := by
    induction entries with
    | nil => rfl
    | cons entry rest ih =>
        obtain ⟨key, value⟩ := entry
        rw [List.map_cons, Prod.map_apply, id, List.lookup_cons, List.lookup_cons, ih]
        cases name == key <;> rfl
  exact hlookup table.entries

@[simp]
theorem contains_map (table : Table α) (name : String) :
    (table.map f).contains name = table.contains name := by
  rw [contains, get?_map, Option.isSome_map, contains]

end Table

end Tables

/-! ## What is known, further down -/

/-- A step that is so many lines further down. -/
def Step.lower (lines : Nat) (step : Step) : Step :=
  { step with sourceLine := step.sourceLine + lines }

/-- A function that is declared so many lines further down. -/
def FunctionInfo.lower (lines : Nat) (info : FunctionInfo) : FunctionInfo :=
  { info with sourceLine := info.sourceLine + lines }

/-- What is known of a script that is so many lines further down. -/
def Extraction.lower (lines : Nat) (known : Extraction) : Extraction where
  steps := known.steps.map (Step.lower lines)
  functions := known.functions.map (FunctionInfo.lower lines)
  bindings := known.bindings

/-- A node that is read so far further on. -/
def Node.shift (d : Shift) : Node → Node
  | .stmt value => .stmt (value.shift d)
  | .expr value => .expr (value.shift d)

namespace Extraction

variable (lines : Nat) (known : Extraction)

theorem push_lower (step : Step) :
    (known.lower lines).push (step.lower lines) = (known.push step).lower lines := by
  unfold push lower
  rw [List.map_append]
  rfl

theorem declare_lower (info : FunctionInfo) :
    (known.lower lines).declare (info.lower lines) = (known.declare info).lower lines := by
  unfold declare lower
  rw [← Table.insert_map]
  rfl

end Extraction

/-! ## Steps -/

section Steps

variable (lines : Nat) (known : Extraction)

theorem shapeOfName_lower (name : String) :
    shapeOfName (known.lower lines) name = shapeOfName known name := by
  unfold shapeOfName Extraction.lower
  rw [Table.contains_map]

theorem callShape?_lower (e : Expr) : callShape? (known.lower lines) e = callShape? known e := by
  cases e with
  | call callee args span => simp only [callShape?, shapeOfName_lower]
  | _ => rfl

theorem nestedAction?_lower (e : Expr) :
    nestedAction? (known.lower lines) e = nestedAction? known e := by
  rw [nestedAction?, callShape?_lower, nestedAction?]

theorem classifyExpr_lower (kind : NodeKind) (e : Expr) :
    classifyExpr (known.lower lines) kind e = classifyExpr known kind e := by
  have hshape := callShape?_lower lines known e
  cases e with
  | assign op target value span => rfl
  | update op leading target span => rfl
  | _ =>
      unfold classifyExpr
      dsimp only
      rw [hshape]
      rfl

/-- The step of a statement does not depend on the lines of what is known. -/
theorem classifyStmt_lower (stmt : Stmt) :
    classifyStmt (known.lower lines) stmt = classifyStmt known stmt := by
  match stmt with
  | .exprStmt e _ => exact classifyExpr_lower lines known _ e
  | .labeled label body _ =>
      unfold classifyStmt
      rw [classifyStmt_lower body]
  | .declare _ _ _ | .functionDecl _ _ _ _ _ | .ifStmt _ _ _ _ | .whileStmt _ _ _
  | .doWhileStmt _ _ _ | .forStmt _ _ _ _ _ | .forEachStmt _ _ _ _ _ _ | .returnStmt _ _
  | .throwStmt _ _ | .tryStmt _ _ _ _ _ | .block _ _ | .breakStmt _ | .continueStmt _
  | .emptyStmt _ | .switchStmt _ _ _ | .classDecl _ _ _ _ | .unknown _ _ => rfl

variable (d : Shift)

theorem span_line_shift (e : Expr) : (e.shift d).span.line = e.span.line + d.lines := by
  rw [Expr.span_shift, Span.line_shift]

theorem stepLine_shift (stmt : Stmt) : (stmt.shift d).stepLine = stmt.stepLine + d.lines := by
  match stmt with
  | .exprStmt e _ => exact span_line_shift d e
  | .labeled _ body _ => exact stepLine_shift body
  | .declare _ _ span | .functionDecl _ _ _ _ span | .ifStmt _ _ _ span | .whileStmt _ _ span
  | .doWhileStmt _ _ span | .forStmt _ _ _ _ span | .forEachStmt _ _ _ _ _ span
  | .returnStmt _ span | .throwStmt _ span | .tryStmt _ _ _ _ span | .block _ span
  | .breakStmt span | .continueStmt span | .emptyStmt span | .switchStmt _ _ span
  | .classDecl _ _ _ span | .unknown _ span => exact Span.line_shift d span

theorem Step.placedIn_lower (step : Step) (ancestry : List Ancestor) :
    (step.lower lines).placedIn ancestry = (step.placedIn ancestry).lower lines := by
  cases ancestry <;> rfl

/-- The step of a node that is read further down is the step of the node, further down. -/
theorem classify_shift (ancestry : List Ancestor) (node : Node) :
    classify (known.lower d.lines) ancestry (node.shift d) =
      (classify known ancestry node).lower d.lines := by
  unfold classify
  rw [← Step.placedIn_lower]
  refine congrArg (Step.placedIn · ancestry) ?_
  cases node with
  | stmt stmt =>
      dsimp only [Node.shift]
      rw [classifyStmt_lower, classifyStmt_face, Stmt.face_shift, stepLine_shift,
        classifyStmt_face known stmt]
      rfl
  | expr e =>
      have hkind : kindOfExpr (e.shift d) = kindOfExpr e := by
        rw [← kindOfExpr_face, Expr.face_shift, kindOfExpr_face]
      dsimp only [Node.shift]
      rw [hkind, classifyExpr_lower, classifyExpr_face, Expr.face_shift, span_line_shift,
        classifyExpr_face known _ e]
      rfl

end Steps

/-! ## Walks

Each lemma takes what is known before a walk, in both runs, and gives what is known after it,
so that walks that come one after the other are followed by applying one lemma to the other.
-/

section Emitting

variable {d : Shift} {known later : Extraction}

/-- The same step is made further down. -/
theorem emit_shift (h : later = known.lower d.lines) (ancestry : List Ancestor) (node : Node) :
    later.emit ancestry (node.shift d) = (known.emit ancestry node).lower d.lines := by
  rw [h, Extraction.emit, classify_shift, Extraction.push_lower, Extraction.emit]

theorem emitNested_shift (h : later = known.lower d.lines) (ancestry : List Ancestor) (e : Expr) :
    later.emitNested ancestry (e.shift d) = (known.emitNested ancestry e).lower d.lines := by
  rw [h, Extraction.emitNested, nestedAction?_lower, ← nestedAction?_face, Expr.face_shift,
    nestedAction?_face, Extraction.emitNested]
  split
  · exact emit_shift rfl ancestry (.expr e)
  · rfl

theorem callbackOwner_shift (callee : Expr) :
    callbackOwner (callee.shift d) = callbackOwner callee := by
  rw [← callbackOwner_face, Expr.face_shift, callbackOwner_face]

theorem declareFunction_shift (h : later = known.lower d.lines) (name : String)
    (params : List Pattern) (isAsync : Bool) (span : Span) :
    later.declare (functionInfo name (shiftPatterns d params) isAsync (span.shift d)) =
      (known.declare (functionInfo name params isAsync span)).lower d.lines := by
  rw [h, ← Extraction.declare_lower, functionInfo, ← renderPatterns_face, facePatterns_shift,
    renderPatterns_face, Span.line_shift]
  rfl

theorem declareFunctions_shift (h : later = known.lower d.lines) (declarators : List Declarator) :
    declareFunctions later (shiftDeclarators d declarators) =
      (declareFunctions known declarators).lower d.lines := by
  induction declarators generalizing known later with
  | nil => exact h
  | cons declarator rest ih =>
      obtain ⟨target, init, span⟩ := declarator
      refine ih ?_
      dsimp only [Declarator.shift, Declarator.target, Declarator.init, Declarator.span]
      rw [Pattern.name?_shift]
      cases target.name? with
      | none => exact h
      | some name =>
          cases init with
          | none => exact h
          | some e =>
              cases e with
              | function _ params isAsync _ _ _ =>
                  exact declareFunction_shift h name params isAsync span
              | _ => exact h

/-- The values of expressions that are functions are walked as their bodies. -/
theorem walkValue_shift {ancestry inner : List Ancestor} {e : Expr}
    (hexpr : walkExpr ancestry false (e.shift d) later =
      (walkExpr ancestry false e known).lower d.lines)
    (hbody : ∀ body ∈ functionBody? e,
      walkBody inner (body.shift d) later = (walkBody inner body known).lower d.lines) :
    walkValue ancestry inner (e.shift d) later =
      (walkValue ancestry inner e known).lower d.lines := by
  have hshift : functionBody? (e.shift d) = (functionBody? e).map (FunctionBody.shift d) := by
    cases e <;> rfl
  unfold walkValue
  rw [hshift]
  cases hbody? : functionBody? e with
  | none => exact hexpr
  | some body => exact hbody body hbody?

end Emitting

variable {d : Shift}

mutual

theorem walkStmt_shift (ancestry : List Ancestor) (stmt : Stmt)
    {known later : Extraction} (h : later = known.lower d.lines) :
    walkStmt ancestry (stmt.shift d) later = (walkStmt ancestry stmt known).lower d.lines := by
  -- where a statement makes a step, this is what is known behind it
  have hemit := emit_shift h ancestry (.stmt stmt)
  match stmt with
  | .block body _ => exact walkStmts_shift ancestry body h
  | .emptyStmt _ => exact h
  | .labeled _ body _ => exact walkStmt_shift ancestry body h
  | .breakStmt _ | .continueStmt _ | .unknown _ _ => exact hemit
  | .declare kind declarators span =>
      have hdeclared := emit_shift (declareFunctions_shift h declarators) ancestry
        (.stmt (.declare kind declarators span))
      exact walkDeclarators_shift ancestry declarators hdeclared
  | .functionDecl name params isAsync body span =>
      have hdeclared := emit_shift (declareFunction_shift h name params isAsync span) ancestry
        (.stmt (.functionDecl name params isAsync body span))
      exact walkStmt_shift (.function name :: ancestry) body hdeclared
  | .ifStmt test thenBody elseBody span =>
      have htest := walkExpr_shift ancestry false test hemit
      have hthen := walkStmt_shift (.conditional :: ancestry) thenBody htest
      have helse := walkStmt?_shift (.conditional :: ancestry) elseBody hthen
      rw [Stmt.shift, walkStmt_if, walkStmt_if]
      exact helse
  | .whileStmt test body span =>
      have htest := walkExpr_shift ancestry false test hemit
      exact walkStmt_shift (.loop :: ancestry) body htest
  | .doWhileStmt body test span =>
      have hbody := walkStmt_shift (.loop :: ancestry) body hemit
      exact walkExpr_shift ancestry false test hbody
  | .forStmt init test update body span =>
      have hinit := walkStmt?_shift ancestry init hemit
      have htest := walkExpr?_shift ancestry test hinit
      have hupdate := walkExpr?_shift ancestry update htest
      rw [Stmt.shift, walkStmt_for, walkStmt_for]
      exact walkStmt_shift (.loop :: ancestry) body hupdate
  | .forEachStmt kind varKind binding collection body span =>
      have hcollection := walkExpr_shift ancestry false collection hemit
      exact walkStmt_shift (.loop :: ancestry) body hcollection
  | .returnStmt value span =>
      rw [Stmt.shift, walkStmt_return, walkStmt_return]
      exact walkExpr?_shift ancestry value hemit
  | .throwStmt value span => exact walkExpr_shift ancestry false value hemit
  | .tryStmt body catchVar catchBody finallyBody span =>
      have hbody := walkStmt_shift (.tryBlock :: ancestry) body hemit
      have hcatch := walkStmt?_shift (.tryBlock :: ancestry) catchBody hbody
      rw [Stmt.shift, walkStmt_try, walkStmt_try]
      exact walkStmt?_shift (.tryBlock :: ancestry) finallyBody hcatch
  | .switchStmt discriminant cases span =>
      have hdiscriminant := walkExpr_shift ancestry false discriminant hemit
      exact walkCases_shift (.conditional :: ancestry) cases hdiscriminant
  | .classDecl name superclass members span =>
      have hsuperclass := walkExpr?_shift ancestry superclass hemit
      rw [Stmt.shift, walkStmt_class, walkStmt_class]
      exact walkMembers_shift ancestry name members hsuperclass
  | .exprStmt e span => exact walkExpr_shift ancestry true e hemit

theorem walkStmt?_shift (ancestry : List Ancestor) (stmt : Option Stmt)
    {known later : Extraction} (h : later = known.lower d.lines) :
    walkOption (walkStmt ancestry) (shiftStmt? d stmt) later =
      (walkOption (walkStmt ancestry) stmt known).lower d.lines := by
  match stmt with
  | none => exact h
  | some stmt => exact walkStmt_shift ancestry stmt h

theorem walkStmts_shift (ancestry : List Ancestor) (stmts : List Stmt)
    {known later : Extraction} (h : later = known.lower d.lines) :
    walkStmts ancestry (shiftStmts d stmts) later =
      (walkStmts ancestry stmts known).lower d.lines := by
  match stmts with
  | [] => exact h
  | stmt :: rest => exact walkStmts_shift ancestry rest (walkStmt_shift ancestry stmt h)

theorem walkDeclarators_shift (ancestry : List Ancestor) (declarators : List Declarator)
    {known later : Extraction} (h : later = known.lower d.lines) :
    walkDeclarators ancestry (shiftDeclarators d declarators) later =
      (walkDeclarators ancestry declarators known).lower d.lines := by
  match declarators with
  | [] => exact h
  | .mk target none span :: rest =>
      exact walkDeclarators_shift ancestry rest (walkDefaults_shift ancestry target h)
  | .mk target (some init) span :: rest =>
      have hdefaults := walkDefaults_shift ancestry target h
      have hinit := walkExpr_shift ancestry false init hdefaults
      rw [shiftDeclarators, Declarator.shift, shiftExpr?, walkDeclarators_some,
        walkDeclarators_some, Pattern.name?_shift]
      cases target.name? with
      | none => exact walkDeclarators_shift ancestry rest hinit
      | some name =>
          exact walkDeclarators_shift ancestry rest
            (walkValue_shift hinit (walkFunction_shift (.function name :: ancestry) init hdefaults))

theorem walkCases_shift (ancestry : List Ancestor) (cases : List SwitchCase)
    {known later : Extraction} (h : later = known.lower d.lines) :
    walkCases ancestry (shiftCases d cases) later =
      (walkCases ancestry cases known).lower d.lines := by
  match cases with
  | [] => exact h
  | .mk test body span :: rest =>
      have htest := walkExpr?_shift ancestry test h
      have hbody := walkStmts_shift ancestry body htest
      rw [shiftCases, SwitchCase.shift, walkCases_cons, walkCases_cons]
      exact walkCases_shift ancestry rest hbody

theorem walkMembers_shift (ancestry : List Ancestor) (className : String)
    (members : List ClassMember) {known later : Extraction} (h : later = known.lower d.lines) :
    walkMembers ancestry className (shiftMembers d members) later =
      (walkMembers ancestry className members known).lower d.lines := by
  match members with
  | [] => exact h
  | .method name isStatic function :: rest =>
      have hfunction := walkValue_shift (walkExpr_shift ancestry false function h)
        (walkFunction_shift (.function (className ++ "." ++ name) :: ancestry) function h)
      rw [shiftMembers, ClassMember.shift, walkMembers_method, walkMembers_method]
      exact walkMembers_shift ancestry className rest hfunction
  | .field name isStatic value span :: rest =>
      have hvalue := walkExpr?_shift ancestry value h
      rw [shiftMembers, ClassMember.shift, walkMembers_field, walkMembers_field]
      exact walkMembers_shift ancestry className rest hvalue

theorem walkDefaults_shift (ancestry : List Ancestor) (pattern : Pattern)
    {known later : Extraction} (h : later = known.lower d.lines) :
    walkDefaults ancestry (pattern.shift d) later =
      (walkDefaults ancestry pattern known).lower d.lines := by
  match pattern with
  | .ident _ _ => exact h
  | .array elements _ => exact walkElements_shift ancestry elements h
  | .object properties _ => exact walkTargets_shift ancestry properties h
  | .rest target _ => exact walkDefaults_shift ancestry target h
  | .withDefault target value _ =>
      exact walkExpr_shift ancestry false value (walkDefaults_shift ancestry target h)

theorem walkElements_shift (ancestry : List Ancestor) (elements : List (Option Pattern))
    {known later : Extraction} (h : later = known.lower d.lines) :
    walkElements ancestry (shiftElements d elements) later =
      (walkElements ancestry elements known).lower d.lines := by
  match elements with
  | [] => exact h
  | none :: rest => exact walkElements_shift ancestry rest h
  | some element :: rest =>
      exact walkElements_shift ancestry rest (walkDefaults_shift ancestry element h)

theorem walkTargets_shift (ancestry : List Ancestor) (properties : List (String × Pattern))
    {known later : Extraction} (h : later = known.lower d.lines) :
    walkTargets ancestry (shiftTargets d properties) later =
      (walkTargets ancestry properties known).lower d.lines := by
  match properties with
  | [] => exact h
  | (_, target) :: rest =>
      exact walkTargets_shift ancestry rest (walkDefaults_shift ancestry target h)

theorem walkBody_shift (ancestry : List Ancestor) (body : FunctionBody)
    {known later : Extraction} (h : later = known.lower d.lines) :
    walkBody ancestry (body.shift d) later = (walkBody ancestry body known).lower d.lines := by
  match body with
  | .block body => exact walkStmt_shift ancestry body h
  | .expr value => exact walkExpr_shift ancestry false value h

/-- The body of an expression that is a function is one of its parts. -/
theorem walkFunction_shift (inner : List Ancestor) (e : Expr)
    {known later : Extraction} (h : later = known.lower d.lines) :
    ∀ body ∈ functionBody? e,
      walkBody inner (body.shift d) later = (walkBody inner body known).lower d.lines := by
  cases e with
  | function name params isAsync isArrow body span =>
      intro other hother
      obtain rfl := Option.some.inj hother
      exact walkBody_shift inner body h
  | _ => exact fun _ hother => nomatch hother

theorem walkExpr_shift (ancestry : List Ancestor) (whole : Bool) (e : Expr)
    {known later : Extraction} (h : later = known.lower d.lines) :
    walkExpr ancestry whole (e.shift d) later =
      (walkExpr ancestry whole e known).lower d.lines := by
  -- the expression of an expression statement has its step already
  have hemit : (if whole then later else later.emitNested ancestry (e.shift d)) =
      (if whole then known else known.emitNested ancestry e).lower d.lines := by
    cases whole with
    | true => exact h
    | false => exact emitNested_shift h ancestry e
  match e with
  | .bool _ _ | .number _ _ | .string _ _ | .null _ | .regex _ _ _ | .ident _ _ => exact hemit
  | .template _ parts _ | .list parts _ | .sequence parts _ =>
      exact walkExprs_shift ancestry parts hemit
  | .object parts _ => exact walkProperties_shift ancestry parts hemit
  | .member inner _ _ _ _ | .await inner _ | .unary _ inner _ | .update _ _ inner _
  | .spread inner _ =>
      exact walkExpr_shift ancestry false inner hemit
  | .index first second _ | .binary _ first second _ | .assign _ first second _ =>
      have hfirst := walkExpr_shift ancestry false first hemit
      exact walkExpr_shift ancestry false second hfirst
  | .call callee args _ | .construct callee args _ =>
      have hcallee := walkExpr_shift ancestry false callee hemit
      refine (congrArg (walkArgs ancestry · _ _) (callbackOwner_shift callee)).trans ?_
      exact walkArgs_shift ancestry (callbackOwner callee) args hcallee
  | .function name params isAsync isArrow body span =>
      exact walkBody_shift (.function (name.getD "anonymous") :: ancestry) body hemit
  | .ternary condition consequent alternate _ =>
      have hcondition := walkExpr_shift ancestry false condition hemit
      have hconsequent := walkExpr_shift ancestry false consequent hcondition
      exact walkExpr_shift ancestry false alternate hconsequent

theorem walkExpr?_shift (ancestry : List Ancestor) (e : Option Expr)
    {known later : Extraction} (h : later = known.lower d.lines) :
    walkOption (walkExpr ancestry false) (shiftExpr? d e) later =
      (walkOption (walkExpr ancestry false) e known).lower d.lines := by
  match e with
  | none => exact h
  | some e => exact walkExpr_shift ancestry false e h

theorem walkExprs_shift (ancestry : List Ancestor) (exprs : List Expr)
    {known later : Extraction} (h : later = known.lower d.lines) :
    walkExprs ancestry (shiftExprs d exprs) later =
      (walkExprs ancestry exprs known).lower d.lines := by
  match exprs with
  | [] => exact h
  | e :: rest => exact walkExprs_shift ancestry rest (walkExpr_shift ancestry false e h)

theorem walkProperties_shift (ancestry : List Ancestor)
    (properties : List (String × Span × Expr))
    {known later : Extraction} (h : later = known.lower d.lines) :
    walkProperties ancestry (shiftProperties d properties) later =
      (walkProperties ancestry properties known).lower d.lines := by
  match properties with
  | [] => exact h
  | (_, _, value) :: rest =>
      exact walkProperties_shift ancestry rest (walkExpr_shift ancestry false value h)

theorem walkArgs_shift (ancestry : List Ancestor) (owner : String) (args : List Expr)
    {known later : Extraction} (h : later = known.lower d.lines) :
    walkArgs ancestry owner (shiftExprs d args) later =
      (walkArgs ancestry owner args known).lower d.lines := by
  match args with
  | [] => exact h
  | arg :: rest =>
      have harg := walkValue_shift (walkExpr_shift ancestry false arg h)
        (walkFunction_shift (.callback owner :: ancestry) arg h)
      rw [shiftExprs, walkArgs_cons, walkArgs_cons]
      exact walkArgs_shift ancestry owner rest harg

end

/-- The steps and functions of a program that is read further down are those of the program,
further down, and the values are the same. -/
theorem extract_shift {program moved : Program} (h : moved.body = shiftStmts d program.body) :
    extract moved = (extract program).lower d.lines := by
  unfold extract
  rw [h]
  exact walkStmts_shift [] program.body rfl

end EventLoop
