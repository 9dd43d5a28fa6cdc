import EventLoop.Peg.Match
import EventLoop.Script.Literal
import EventLoop.Script.Program
import EventLoop.Script.Rule
import EventLoop.Source.LineMap
import EventLoop.Text.Blank
import EventLoop.Text.Quoted

/-!
# From trees to programs

The meaning of a tree is put together from the meanings of its children,
bottom up.  `assemble` says how, rule by rule; `Part.ofTree` applies it to a
whole tree.

Every rule has one kind of meaning: statements for `statement` and what it
consists of, expressions for `expression` and what it consists of, and so on.
Tokens mean nothing but their text.  A tree that does not have the shape that
its rule prescribes has no meaning, which is an `AssemblyError`.
-/

namespace EventLoop.Script

/-- What a part of a tree is read as. -/
inductive Role where
  /-- A part of the program itself. -/
  | content
  | statement
  | binding
  | bindingProperty
  /-- An expression, or a part of a rule that is not read further. -/
  | expression (besides : List Rule)
  | operator
  /-- What stands behind an expression: a call or an access. -/
  | suffix
  | property
  deriving DecidableEq

/-- What is wrong with a part at a place that is of a rule that it cannot be of. -/
def Role.complaint (role : Role) (place : Nat) (rule : Rule) : String :=
  match role with
  | .content => "Unexpected program content: " ++ rule.name
  | .statement => "Unexpected statement rule: " ++ rule.name
  | .binding => "Unexpected binding rule: " ++ rule.name
  | .bindingProperty => "Unexpected pattern property rule: " ++ rule.name
  | .expression _ => "Unexpected expression rule: " ++ rule.name
  | .operator =>
    "Expected operator rule at index " ++ toString place ++ ", got " ++ rule.name
  | .suffix => "Unexpected postfix rule: " ++ rule.name
  | .property => "Unexpected property rule: " ++ rule.name

/-- What is wrong with the shape of a tree. -/
inductive AssemblyError where
  /-- There is no tree at all. -/
  | nothing
  /-- A part is not there; the text says which one. -/
  | missing (text : String) (span : Span)
  /-- A part is of a rule that it cannot be of. -/
  | misplaced (role : Role) (place : Nat) (rule : Rule) (span : Span)
  /-- A declaration starts with another word than the three that it can start with. -/
  | unknownKind (token : String) (span : Span)
  | unreadableNumber (token : String) (span : Span)

namespace AssemblyError

/-- The text of an error. -/
def message : AssemblyError → String
  | .nothing => "Parser produced no program"
  | .missing text _ => text
  | .misplaced role place rule _ => role.complaint place rule
  | .unknownKind token _ => "Expected \x27let\x27, \x27const\x27 or \x27var\x27, got: " ++ token
  | .unreadableNumber token _ =>
    "Failed to parse number \x27" ++ token ++ "\x27: "
      ++ if token.toList.all (· = '_') then "cannot parse float from empty string"
         else "invalid float literal"

/-- Where the error is: one without a place counts as one at the start. -/
def span : AssemblyError → Span
  | .nothing => .zero
  | .missing _ span => span
  | .misplaced _ _ _ span => span
  | .unknownKind _ span => span
  | .unreadableNumber _ span => span

end AssemblyError

/-- What a tree stands for. -/
inductive Meaning where
  | token
  | stmt (value : Stmt)
  | expr (value : Expr)
  | exprs (values : List Expr)
  | pattern (value : Pattern)
  | params (values : List Pattern)
  | slot (value : Option Pattern)
  | patternProperty (key : String) (target : Pattern)
  | declarator (value : Declarator)
  | declaration (kind : VarKind) (declarators : List Declarator)
  | init (value : Option Stmt)
  | clause (value : Option Expr)
  | switchCase (value : SwitchCase)
  | handler (name : Option String) (body : Stmt)
  | member (value : Option ClassMember)
  | method (name : String) (isStatic : Bool) (function : Expr)
  | property (key : String) (keySpan : Span) (value : Expr)
  | key (text : String)
  | body (value : FunctionBody)
  | args (values : List Expr)
  | access (isOptional : Bool) (property : String) (propertySpan : Span)
  | index (value : Expr)

/-- A tree with its meaning. -/
structure Part where
  rule : Rule
  start : Cursor
  stop : Cursor
  span : Span
  meaning : Meaning

/-- The source text of a part. -/
def Part.text (part : Part) : List Char :=
  part.start.textTo part.stop

/-- The source text of a part. -/
def Part.string (part : Part) : String :=
  String.ofList part.text

/-! ## Choosing parts -/

section Choosing

variable (parts : List Part)

/-- The statements among some parts. -/
def stmtsOf : List Stmt :=
  parts.filterMap fun part => match part.meaning with
    | .stmt value => some value
    | _ => none

/-- The expressions among some parts. -/
def exprsOf : List Expr :=
  parts.filterMap fun part => match part.meaning with
    | .expr value => some value
    | _ => none

/-- The patterns among some parts. -/
def patternsOf : List Pattern :=
  parts.filterMap fun part => match part.meaning with
    | .pattern value => some value
    | _ => none

/-- The parameters among some parts, if there is a list of them. -/
def paramsOf : List Pattern :=
  parts.flatMap fun part => match part.meaning with
    | .params values => values
    | _ => []

/-- The arguments among some parts, if there is a list of them. -/
def argsOf : List Expr :=
  parts.flatMap fun part => match part.meaning with
    | .exprs values => values
    | .args values => values
    | _ => []

/-- The part of a rule. -/
def partOf? (rule : Rule) : Option Part :=
  parts.find? (·.rule = rule)

/-- Whether some part is of a rule. -/
def hasPart (rule : Rule) : Bool :=
  (partOf? parts rule).isSome

/-- The source text of the part of a rule. -/
def textOf? (rule : Rule) : Option String :=
  (partOf? parts rule).map Part.string

/-- The statement that is the part of a rule. -/
def stmtOf? (rule : Rule) : Option Stmt :=
  (stmtsOf (parts.filter (·.rule = rule))).head?

end Choosing

/-- What must be there, and what to say if it is not. -/
def need {α : Type} (text : String) (span : Span) : Option α → Except AssemblyError α
  | some value => .ok value
  | none => .error (.missing text span)

/-! ## Parts that take some work -/

/-- The keyword of a declaration. -/
def varKindOf (keyword : String) : VarKind :=
  if keyword = "let" then .letVar else if keyword = "const" then .constVar else .varVar

/-- The binary operator of a rule. -/
def binaryOpOf? : Rule → Option BinaryOp
  | .opNullish => some .nullish
  | .opOr => some .or
  | .opAnd => some .and
  | .opSeq => some .strictEq
  | .opSne => some .strictNe
  | .opEq => some .eq
  | .opNe => some .ne
  | .opLte => some .lte
  | .opGte => some .gte
  | .opLt => some .lt
  | .opGt => some .gt
  | .opInstanceof => some .instanceOf
  | .opIn => some .isIn
  | .opAdd => some .add
  | .opSub => some .sub
  | .opMul => some .mul
  | .opDiv => some .div
  | .opMod => some .mod
  | .opPow => some .pow
  | _ => none

/-- The operator before an operand. -/
def unaryOpOf? : Rule → Option UnaryOp
  | .opNot => some .not
  | .opNeg => some .neg
  | .opPlus => some .plus
  | .opTypeof => some .typeof
  | _ => none

/-- The assignment that is written in a way. -/
def assignOpOf (token : String) : AssignOp :=
  if token = "+=" then .add
  else if token = "-=" then .sub
  else if token = "*=" then .mul
  else if token = "/=" then .div
  else .assign

/-- Operators and operands behind a left operand, grouped to the left. -/
def foldOperands (span : Span) (left : Expr) : List Part → Except AssemblyError Expr
  | [] => .ok left
  | operator :: operand :: rest =>
    match binaryOpOf? operator.rule, operand.meaning with
    | some op, .expr right =>
      foldOperands span (.binary op left right (left.span.merge right.span)) rest
    | _, _ => .error (.missing "Missing right operand after operator" span)
  | [_] => .error (.missing "Missing right operand after operator" span)

/-- Accesses and calls behind an expression. -/
def foldTrailers (e : Expr) : List Part → Expr
  | [] => e
  | part :: rest =>
    let span := e.span.merge part.span
    foldTrailers
      (match part.meaning with
       | .args values => .call e values span
       | .access isOptional property propertySpan =>
         .member e property propertySpan isOptional span
       | .index value => .index e value span
       | _ => e)
      rest

/-- The slots of an array pattern: an empty last slot is no hole. -/
def elementsOf (slots : List (Option Pattern)) : List (Option Pattern) :=
  match slots.getLast? with
  | some none => slots.dropLast
  | _ => slots

/-- The pieces and the expressions of a template. -/
def templateOf : List Part → List Char × List String × List Expr
  | [] => ([], [], [])
  | part :: rest =>
    let (piece, pieces, exprs) := templateOf rest
    match part.meaning with
    | .expr value => ([], String.ofList piece :: pieces, value :: exprs)
    | _ => (Text.unescape part.text ++ piece, pieces, exprs)

/-- The text of a raw statement: without semicolons at its end, and without
the blanks before them. -/
def rawText (text : List Char) : List Char :=
  Text.trimEnd (text.reverse.dropWhile (· = ';')).reverse

/-- A name as an expression. -/
def Part.identExpr (part : Part) : Expr :=
  .ident part.string part.span

/-- A name as a pattern. -/
def Part.identPattern (part : Part) : Pattern :=
  .ident part.string part.span

/-! ## Assembling a rule -/

/-- The meaning of a statement's rule. -/
def assembleStmt? (rule : Rule) (whole : Part) (parts : List Part) :
    Option (Except AssemblyError Stmt) :=
  let span := whole.span
  let expr (what : String) := need ("Missing " ++ what) span (exprsOf parts).head?
  let stmt (what : String) := need ("Missing " ++ what) span (stmtsOf parts).head?
  match rule with
  | .statement => some (stmt "statement")
  | .elseClause => some (stmt "else body")
  | .finallyClause => some (stmt "finally block")
  | .block => some (.ok (.block (stmtsOf parts) span))
  | .emptyStmt => some (.ok (.emptyStmt span))
  | .functionDecl => some do
    let name ← need "Function declaration requires a name" span (textOf? parts .identifier)
    let body ← need "Function declaration requires a body" span (stmtsOf parts).head?
    return .functionDecl name (paramsOf parts) (hasPart parts .kwAsync) body span
  | .declareStmt => some <|
    match parts.map Part.meaning with
    | .declaration kind declarators :: _ => .ok (.declare kind declarators span)
    | _ => .error (.missing "Missing declaration" span)
  | .ifStmt => some do
    return .ifStmt (← expr "if condition") (← stmt "if body") (stmtsOf parts)[1]? span
  | .switchStmt => some do
    let cases := parts.filterMap fun part => match part.meaning with
      | .switchCase value => some value
      | _ => none
    return .switchStmt (← expr "switch value") cases span
  | .classDecl => some do
    let name ← need "Class declaration requires a name" span (textOf? parts .identifier)
    let members := parts.filterMap fun part => match part.meaning with
      | .member value => value
      | _ => none
    return .classDecl name (exprsOf parts).head? members span
  | .forLoopStmt => some do
    let binding ← need "Missing loop binding" span (patternsOf parts).head?
    let kind ← need "Missing \x27of\x27 or \x27in\x27" span (textOf? parts .forKind)
    return .forEachStmt (if kind = "of" then .values else .keys)
      ((textOf? parts .declKind).map varKindOf) binding (← expr "loop iterable")
      (← stmt "loop body") span
  | .forStmt => some do
    let init := parts.findSome? fun part => match part.meaning with
      | .init value => value
      | _ => none
    let clause (rule : Rule) := (partOf? parts rule).bind fun part => match part.meaning with
      | .clause value => value
      | _ => none
    return .forStmt init (clause .forTest) (clause .forUpdate) (← stmt "for loop body") span
  | .whileStmt => some do
    return .whileStmt (← expr "while condition") (← stmt "while body") span
  | .doWhileStmt => some do
    return .doWhileStmt (← stmt "do body") (← expr "do-while condition") span
  | .returnStmt => some (.ok (.returnStmt (exprsOf parts).head? span))
  | .throwStmt => some do return .throwStmt (← expr "thrown value") span
  | .breakStmt => some (.ok (.breakStmt span))
  | .continueStmt => some (.ok (.continueStmt span))
  | .tryStmt => some do
    let body ← need "Missing try block" span (stmtOf? parts .block)
    let handler := parts.findSome? fun part => match part.meaning with
      | .handler name body => some (name, body)
      | _ => none
    return .tryStmt body (handler.bind Prod.fst) (handler.map Prod.snd)
      (stmtOf? parts .finallyClause) span
  | .labeledStmt => some do
    let label ← need "Missing label" span (textOf? parts .identifier)
    return .labeled label (← stmt "labeled statement") span
  | .exprStmt => some do return .exprStmt (← expr "expression") span
  | .unknownStmt => some (.ok (.unknown (String.ofList (rawText whole.text)) span))
  | _ => none

/-- The meaning of a pattern's rule. -/
def assemblePattern? (rule : Rule) (whole : Part) (parts : List Part) :
    Option (Except AssemblyError Pattern) :=
  let span := whole.span
  let target (what : String) := need ("Missing " ++ what) span (patternsOf parts).head?
  match rule with
  | .param => some (target "binding")
  | .bindingTarget => some <|
    match partOf? parts .identifier with
    | some part => .ok part.identPattern
    | none => target "binding"
  | .bindingElement => some do
    let target ← target "binding"
    return match (exprsOf parts).head? with
      | some value => .withDefault target value span
      | none => target
  | .patternShorthand => some do
    let name ← need "Missing binding" span (partOf? parts .identifier)
    return match (exprsOf parts).head? with
      | some value => .withDefault name.identPattern value span
      | none => name.identPattern
  | .restElement => some do return .rest (← target "rest target") span
  | .arrayPattern => some <|
    let slots := parts.filterMap fun part => match part.meaning with
      | .slot value => some value
      | _ => none
    .ok (.array (elementsOf slots) span)
  | .objectPattern => some <|
    let properties := parts.filterMap fun part => match part.meaning with
      | .patternProperty key target => some (key, target)
      | _ => none
    .ok (.object properties span)
  | _ => none

/-- The function of some parts. -/
def functionOf (name : Option String) (isArrow : Bool) (body : FunctionBody) (span : Span)
    (parts : List Part) : Expr :=
  .function name (paramsOf parts) (hasPart parts .kwAsync) isArrow body span

/-- The meaning of an expression's rule. -/
def assembleExpr? (rule : Rule) (whole : Part) (parts : List Part) :
    Option (Except AssemblyError Expr) :=
  let span := whole.span
  let first (what : String) := need ("Missing " ++ what) span (exprsOf parts).head?
  match rule with
  | .assignExpr | .literal | .parenExpr => some (first "expression")
  | .templateSub => some (first "template expression")
  | .classHeritage => some (first "superclass")
  | .primary => some <|
    match partOf? parts .identifier with
    | some part => .ok part.identExpr
    | none => first "expression"
  | .expression => some <|
    match exprsOf parts with
    | [] => .error (.missing "Empty expression" span)
    | [e] => .ok e
    | es => .ok (.sequence es span)
  | .spreadElement => some do return .spread (← first "spread value") span
  | .assignment => some do
    let op ← need "Missing assignment operator" span (textOf? parts .assignOp)
    let value ← need "Missing assigned value" span (exprsOf parts)[1]?
    return .assign (assignOpOf op) (← first "assignment target") value span
  | .arrowFunction => some do
    let body ← need "Function requires a body" span <| parts.findSome? fun part =>
      match part.meaning with
      | .body value => some value
      | _ => none
    return functionOf none true body span parts
  | .functionExpr => some do
    let body ← need "Function requires a body" span (stmtsOf parts).head?
    return functionOf (textOf? parts .identifier) false (.block body) span parts
  | .ternaryExpr => some <|
    match exprsOf parts with
    | [e] => .ok e
    | [condition, consequent, alternate] => .ok (.ternary condition consequent alternate span)
    | values =>
      .error (.missing (if values.isEmpty then "Missing condition"
        else "Missing ternary alternate") span)
  | .nullishExpr | .logicalOrExpr | .logicalAndExpr | .equalityExpr | .comparisonExpr
  | .additiveExpr | .multiplicativeExpr | .exponentExpr => some do
    let left ← need "Empty binary expression" span (exprsOf parts).head?
    foldOperands span left parts.tail
  | .unaryExpr => some do
    let operator := (parts.head?.map Part.rule).getD .unaryExpr
    let operand ← first <|
      if operator = .opInc ∨ operator = .opDec then "update target" else "unary operand"
    return match unaryOpOf? operator with
      | some op => .unary op operand span
      | none =>
        if operator = .opInc then .update .increment true operand span
        else if operator = .opDec then .update .decrement true operand span
        else operand
  | .awaitExpr => some do return .await (← first "awaited value") span
  | .postfixExpr => some do
    let target ← first "expression"
    return match textOf? parts .updateSuffix with
      | some token =>
        .update (if token = "++" then .increment else .decrement) false target span
      | none => target
  | .callExpr => some do return foldTrailers (← first "call target") parts.tail
  | .newCallee => some do
    let head ← need "Missing constructor name" span (partOf? parts .identifier)
    return foldTrailers head.identExpr parts.tail
  | .newExpr => some do
    let callee ← need "\x27new\x27 requires a constructor" span (exprsOf parts).head?
    return .construct callee (argsOf parts) span
  | .arrayLit => some (.ok (.list (exprsOf parts) span))
  | .objectLit => some <|
    let properties := parts.filterMap fun part => match part.meaning with
      | .property key keySpan value => some (key, keySpan, value)
      | _ => none
    .ok (.object properties span)
  | .number => some <|
    match numberValue? whole.text with
    | some value => .ok (.number value span)
    | none => .error (.unreadableNumber whole.string span)
  | .string => some do
    let content ← need "Missing string content" span parts.head?
    return .string (String.ofList (Text.unescape content.text)) span
  | .boolean => some (.ok (.bool (whole.string = "true") span))
  | .nullLit => some (.ok (.null span))
  | .template => some <|
    let (piece, pieces, exprs) := templateOf parts
    .ok (.template (String.ofList piece :: pieces) exprs span)
  | .regex => some <|
    .ok (.regex ((textOf? parts .regexBody).getD "") ((textOf? parts .regexFlags).getD "") span)
  | _ => none

/-- The meaning of a rule that stands for a part of a statement, pattern or
expression. -/
def assemblePiece (rule : Rule) (whole : Part) (parts : List Part) :
    Except AssemblyError Meaning :=
  let span := whole.span
  match rule with
  | .paramList => .ok (.params (patternsOf parts))
  | .patternSlot => .ok (.slot (patternsOf parts).head?)
  | .patternPair =>
    match parts.map Part.meaning with
    | [.key key, .pattern target] => .ok (.patternProperty key target)
    | _ => .error (.missing "Missing property target" span)
  | .patternProp =>
    match parts with
    | [⟨.restElement, _, _, _, .pattern target⟩] => .ok (.patternProperty "..." target)
    | [⟨_, _, _, _, .patternProperty key target⟩] => .ok (.patternProperty key target)
    | [⟨_, _, _, _, .pattern target⟩] => do
      let name ← need "Shorthand property requires a name" span target.names.head?
      return .patternProperty name target
    | _ => .error (.missing "Missing pattern property" span)
  | .declarator => do
    let target ← need "Missing declared name" span (patternsOf parts).head?
    return .declarator (.mk target (exprsOf parts).head? span)
  | .varDecl => do
    let keyword ← need "Missing declaration keyword" span (textOf? parts .declKind)
    let declarators := parts.filterMap fun part => match part.meaning with
      | .declarator value => some value
      | _ => none
    return .declaration (varKindOf keyword) declarators
  | .forInit =>
    .ok <| .init <| parts.head?.bind fun part => match part.meaning with
      | .declaration kind declarators => some (.declare kind declarators part.span)
      | .expr value => some (.exprStmt value part.span)
      | _ => none
  | .forTest | .forUpdate => .ok (.clause (exprsOf parts).head?)
  | .switchCase => .ok (.switchCase (.mk (exprsOf parts).head? (stmtsOf parts) span))
  | .catchClause => do
    let body ← need "Missing catch block" span (stmtsOf parts).head?
    return .handler (textOf? parts .identifier) body
  | .methodDef => do
    let name ← need "Method requires a name" span <| parts.findSome? fun part =>
      match part.meaning with
      | .key text => some text
      | _ => none
    let body ← need "Method requires a body" span (stmtsOf parts).head?
    return .method name (hasPart parts .kwStatic)
      (functionOf (some name) false (.block body) span parts)
  | .classField => do
    let name ← need "Class field requires a name" span (textOf? parts .identifierName)
    return .member (some (.field name (hasPart parts .kwStatic) (exprsOf parts).head? span))
  | .classMember =>
    match parts.map Part.meaning with
    | [.method name isStatic function] => .ok (.member (some (.method name isStatic function)))
    | [.member value] => .ok (.member value)
    | [.stmt _] => .ok (.member none)
    | _ => .error (.missing "Missing class member" span)
  | .propertyPair =>
    match parts with
    | [⟨_, _, _, keySpan, .key key⟩, ⟨_, _, _, _, .expr value⟩] =>
      .ok (.property key keySpan value)
    | _ => .error (.missing "Missing property value" span)
  | .propertyShorthand => .ok (.property whole.string span whole.identExpr)
  | .property =>
    match parts with
    | [⟨_, _, _, _, .property key keySpan value⟩] => .ok (.property key keySpan value)
    | [⟨_, _, _, innerSpan, .method name _ function⟩] => .ok (.property name innerSpan function)
    | [⟨_, _, _, innerSpan, .expr value⟩] => .ok (.property "..." innerSpan value)
    | _ => .error (.missing "Missing property" span)
  | .propertyKey =>
    match parts with
    | [⟨_, _, _, _, .expr (.string value _)⟩] => .ok (.key value)
    | [part] => .ok (.key part.string)
    | _ => .error (.missing "Missing property key" span)
  | .arrowParams =>
    match partOf? parts .identifier with
    | some part => .ok (.params [part.identPattern])
    | none => .ok (.params (paramsOf parts))
  | .arrowBody =>
    match parts.map Part.meaning with
    | [.stmt body] => .ok (.body (.block body))
    | [.expr value] => .ok (.body (.expr value))
    | _ => .error (.missing "Missing arrow body" span)
  | .trailer =>
    match parts with
    | [part] => .ok part.meaning
    | _ => .error (.missing "Missing postfix" span)
  | .callSuffix => .ok (.args (argsOf parts))
  | .argList => .ok (.exprs (exprsOf parts))
  | .optionalAccess | .regularAccess => do
    let name ← need "Missing property name" span (partOf? parts .identifierName)
    return .access (rule = .optionalAccess) name.string name.span
  | .indexAccess => do return .index (← need "Missing index" span (exprsOf parts).head?)
  | _ => .ok .token

/-- The meaning of a rule whose parts have meanings. -/
def assemble (rule : Rule) (whole : Part) (parts : List Part) : Except AssemblyError Meaning :=
  match assembleStmt? rule whole parts with
  | some stmt => stmt.map .stmt
  | none =>
    match assembleExpr? rule whole parts with
    | some expr => expr.map .expr
    | none =>
      match assemblePattern? rule whole parts with
      | some pattern => pattern.map .pattern
      | none => assemblePiece rule whole parts

mutual

/-- A tree with its meaning. -/
def Part.ofTree (map : LineMap) : Peg.Tree Rule → Except AssemblyError Part
  | .node rule start stop children => do
    let whole := ⟨rule, start, stop, map.span start.offset stop.offset, .token⟩
    let parts ← Part.ofTrees map children
    return { whole with meaning := ← assemble rule whole parts }

/-- Trees with their meanings. -/
def Part.ofTrees (map : LineMap) : List (Peg.Tree Rule) → Except AssemblyError (List Part)
  | [] => return []
  | tree :: trees => return (← Part.ofTree map tree) :: (← Part.ofTrees map trees)

end

end EventLoop.Script
