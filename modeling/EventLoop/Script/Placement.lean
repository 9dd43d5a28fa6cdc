import EventLoop.Script.Meaning

/-!
# Parts in their places

The parts of a tree are read one after the other, each of them as something: as
a statement, as a binding, as an expression and so on.  `rolesOf` says what the
parts of a rule are read as, and a part of a rule that cannot be read so is
misplaced.  Parts that have no role may be of any rule: nothing but their text
is used, or they are passed over if they are of no use.

Misplaced parts are looked for in a whole tree before its meaning is put
together (`checkTree`).
-/

namespace EventLoop.Script

/-- Keywords say nothing but that they are there. -/
def Rule.isKeyword : Rule → Bool
  | .kwFunction | .kwIf | .kwElse | .kwFor | .kwWhile | .kwDo | .kwReturn | .kwThrow | .kwBreak
  | .kwContinue | .kwTry | .kwCatch | .kwFinally | .kwNew | .kwAwait | .kwSwitch | .kwCase
  | .kwDefault | .kwClass | .kwExtends => true
  | _ => false

namespace Role

/-- Whether what is of a rule can be read as something. -/
def admits (role : Role) (rule : Rule) : Bool :=
  match role with
  | .content => (rule matches .statement | .endOfInput)
  | .statement =>
    (rule matches .statement | .block | .emptyStmt | .functionDecl | .declareStmt | .ifStmt
      | .switchStmt | .classDecl | .forLoopStmt | .forStmt | .whileStmt | .doWhileStmt
      | .returnStmt | .throwStmt | .breakStmt | .continueStmt | .tryStmt | .labeledStmt
      | .exprStmt | .unknownStmt)
  | .binding =>
    (rule matches .identifier | .bindingTarget | .param | .bindingElement | .patternShorthand
      | .restElement | .arrayPattern | .objectPattern)
  | .bindingProperty => (rule matches .restElement | .patternPair | .patternShorthand)
  | .expression besides =>
    besides.contains rule ||
      (rule matches .assignExpr | .primary | .literal | .parenExpr | .expression
        | .spreadElement | .assignment | .arrowFunction | .functionExpr | .ternaryExpr
        | .nullishExpr | .logicalOrExpr | .logicalAndExpr | .equalityExpr | .comparisonExpr
        | .additiveExpr | .multiplicativeExpr | .exponentExpr | .unaryExpr | .awaitExpr
        | .postfixExpr | .callExpr | .newExpr | .identifier | .number | .regex | .boolean
        | .string | .nullLit | .template | .arrayLit | .objectLit)
  | .operator => (binaryOpOf? rule).isSome
  | .suffix => (rule matches .callSuffix | .optionalAccess | .regularAccess | .indexAccess)
  | .property =>
    (rule matches .propertyPair | .spreadElement | .methodDef | .propertyShorthand)

/-- Whether a misplaced part is the error of the whole that it is a part of. -/
def blamesWhole : Role → Bool
  | .bindingProperty | .operator | .suffix => true
  | _ => false

end Role

/-! ## The roles of parts -/

/-- What the parts of a rule are read as: the first ones one by one, and all
others in turn.  A part behind them all has no role. -/
structure Roles where
  first : List (Option Role) := []
  others : List (Option Role) := []
  /-- Whether keywords are left out before parts are counted. -/
  skipsKeywords : Bool := false
  deriving DecidableEq

namespace Roles

/-- What the next part is read as, and the roles of the parts behind it. -/
def next (roles : Roles) : Option Role × Roles :=
  match roles.first, roles.others with
  | role :: first, _ => (role, { roles with first })
  | [], role :: others => (role, { roles with others := others ++ [role] })
  | [], [] => (none, roles)

/-- Reads a part of a rule: the roles of the parts behind it, or the role that
it should have had. -/
def read (roles : Roles) (rule : Rule) : Except Role Roles :=
  if roles.skipsKeywords && rule.isKeyword then .ok roles
  else
    match roles.next with
    | (none, behind) => .ok behind
    | (some role, behind) => if role.admits rule then .ok behind else .error role

end Roles

/-- An expression and nothing else. -/
def plainExpr : Option Role := some (.expression [])

/-- What the parts of a rule are read as. -/
def rolesOf : Rule → Roles
  | .program => { others := [some .content] }
  -- Statements
  | .block => { others := [some .statement] }
  | .statement => { first := [some .statement] }
  | .elseClause => { first := [some .statement], skipsKeywords := true }
  | .labeledStmt => { first := [none, some .statement] }
  | .ifStmt | .whileStmt => { first := [plainExpr, some .statement], skipsKeywords := true }
  | .doWhileStmt => { first := [some .statement, plainExpr], skipsKeywords := true }
  | .switchStmt | .classHeritage | .returnStmt | .throwStmt =>
    { first := [plainExpr], skipsKeywords := true }
  | .exprStmt | .forTest | .forUpdate => { first := [plainExpr] }
  | .forInit => { first := [some (.expression [.varDecl])] }
  | .classField => { others := [some (.expression [.kwStatic, .identifierName])] }
  -- Bindings
  | .paramList => { others := [some .binding] }
  | .param | .bindingTarget | .restElement | .patternSlot => { first := [some .binding] }
  | .bindingElement | .patternShorthand | .declarator =>
    { first := [some .binding, plainExpr] }
  | .patternProp => { first := [some .bindingProperty] }
  | .patternPair => { first := [none, some .binding] }
  -- Expressions
  | .expression | .argList | .arrayLit => { others := [plainExpr] }
  | .assignExpr | .primary | .literal | .parenExpr | .spreadElement | .indexAccess
  | .templateSub | .postfixExpr | .callExpr => { first := [plainExpr] }
  | .awaitExpr => { first := [plainExpr], skipsKeywords := true }
  | .assignment => { first := [plainExpr, none, plainExpr] }
  | .ternaryExpr => { first := [plainExpr, plainExpr, plainExpr] }
  | .nullishExpr | .logicalOrExpr | .logicalAndExpr | .equalityExpr | .comparisonExpr
  | .additiveExpr | .multiplicativeExpr | .exponentExpr =>
    { first := [plainExpr], others := [some .operator, plainExpr] }
  | .unaryExpr =>
    { first :=
        [some (.expression [.opInc, .opDec, .opNot, .opNeg, .opPlus, .opTypeof]), plainExpr] }
  | .arrowBody => { first := [some (.expression [.block])] }
  | .trailer => { first := [some .suffix] }
  | .property => { first := [some .property] }
  | .propertyPair => { first := [none, plainExpr] }
  | _ => {}

/-! ## Checking a tree -/

/-- Reads the parts of a tree one after the other. -/
def checkParts (map : LineMap) (whole : Span) (roles : Roles) (place : Nat) :
    List (Peg.Tree Rule) → Except AssemblyError Unit
  | [] => .ok ()
  | .node rule start stop _ :: rest =>
    match roles.read rule with
    | .ok behind => checkParts map whole behind (place + 1) rest
    | .error role =>
      .error <| .misplaced role place rule <|
        if role.blamesWhole then whole else map.span start.offset stop.offset

/-- The words that a declaration starts with. -/
def declKeywords : List String := ["let", "const", "var"]

/-- The word that a declaration starts with is one of those. -/
def checkKind (rule : Rule) (token : String) (span : Span) : Except AssemblyError Unit :=
  if rule = .declKind ∧ token ∉ declKeywords then .error (.unknownKind token span) else .ok ()

mutual

/-- No part of a tree is misplaced, nor any part of its parts. -/
def checkTree (map : LineMap) : Peg.Tree Rule → Except AssemblyError Unit
  | .node rule start stop children => do
    let span := map.span start.offset stop.offset
    checkKind rule (String.ofList (start.textTo stop)) span
    checkParts map span (rolesOf rule) 0 children
    checkTrees map children

/-- No part of some trees is misplaced. -/
def checkTrees (map : LineMap) : List (Peg.Tree Rule) → Except AssemblyError Unit
  | [] => return
  | tree :: trees => do
    checkTree map tree
    checkTrees map trees

end

end EventLoop.Script
