/-!
# The rules of the script grammar

The names of the syntactic categories of a script, in the order in which they
are listed in messages.
-/

namespace EventLoop.Script

/-- A syntactic category of a script. -/
inductive Rule where
  | endOfInput
  | program
  | statement
  | block
  | emptyStmt
  | functionDecl
  | paramList
  | param
  | declareStmt
  | varDecl
  | declarator
  | bindingTarget
  | bindingElement
  | restElement
  | arrayPattern
  | patternSlot
  | objectPattern
  | patternProp
  | patternPair
  | patternShorthand
  | ifStmt
  | elseClause
  | switchStmt
  | switchCase
  | classDecl
  | classHeritage
  | classMember
  | methodDef
  | classField
  | accessor
  | forLoopStmt
  | forStmt
  | forInit
  | forTest
  | forUpdate
  | whileStmt
  | doWhileStmt
  | returnStmt
  | throwStmt
  | breakStmt
  | continueStmt
  | tryStmt
  | catchClause
  | finallyClause
  | labeledStmt
  | exprStmt
  | unknownStmt
  | balancedGroup
  | groupContent
  | expression
  | assignExpr
  | assignment
  | assignOp
  | arrowFunction
  | arrowParams
  | arrowBody
  | ternaryExpr
  | nullishExpr
  | logicalOrExpr
  | logicalAndExpr
  | equalityExpr
  | comparisonExpr
  | additiveExpr
  | multiplicativeExpr
  | exponentExpr
  | unaryExpr
  | awaitExpr
  | postfixExpr
  | updateSuffix
  | callExpr
  | trailer
  | callSuffix
  | argList
  | spreadElement
  | optionalAccess
  | regularAccess
  | indexAccess
  | primary
  | newExpr
  | newCallee
  | functionExpr
  | parenExpr
  | arrayLit
  | objectLit
  | property
  | propertyPair
  | propertyKey
  | propertyShorthand
  | literal
  | number
  | string
  | dqChars
  | sqChars
  | boolean
  | nullLit
  | template
  | templateChars
  | templateSub
  | regex
  | regexBody
  | regexFlags
  | opNullish
  | opOr
  | opAnd
  | opSeq
  | opSne
  | opEq
  | opNe
  | opLte
  | opGte
  | opLt
  | opGt
  | opAdd
  | opSub
  | opMul
  | opPow
  | opDiv
  | opMod
  | opInc
  | opDec
  | opNot
  | opNeg
  | opPlus
  | opTypeof
  | opInstanceof
  | opIn
  | identifierName
  | identifier
  | reserved
  | keyword
  | declKind
  | forKind
  | kwAsync
  | kwFunction
  | kwIf
  | kwElse
  | kwFor
  | kwWhile
  | kwDo
  | kwReturn
  | kwThrow
  | kwBreak
  | kwContinue
  | kwTry
  | kwCatch
  | kwFinally
  | kwNew
  | kwAwait
  | kwSwitch
  | kwCase
  | kwDefault
  | kwClass
  | kwExtends
  | kwStatic
  deriving DecidableEq

namespace Rule

/-- All rules. -/
def all : List Rule :=
  [.endOfInput, .program, .statement, .block, .emptyStmt, .functionDecl, .paramList, .param,
   .declareStmt, .varDecl, .declarator, .bindingTarget, .bindingElement, .restElement,
   .arrayPattern, .patternSlot, .objectPattern, .patternProp, .patternPair, .patternShorthand,
   .ifStmt, .elseClause, .switchStmt, .switchCase, .classDecl, .classHeritage, .classMember,
   .methodDef, .classField, .accessor, .forLoopStmt, .forStmt, .forInit, .forTest, .forUpdate,
   .whileStmt, .doWhileStmt, .returnStmt, .throwStmt, .breakStmt, .continueStmt, .tryStmt,
   .catchClause, .finallyClause, .labeledStmt, .exprStmt, .unknownStmt, .balancedGroup,
   .groupContent, .expression, .assignExpr, .assignment, .assignOp, .arrowFunction, .arrowParams,
   .arrowBody, .ternaryExpr, .nullishExpr, .logicalOrExpr, .logicalAndExpr, .equalityExpr,
   .comparisonExpr, .additiveExpr, .multiplicativeExpr, .exponentExpr, .unaryExpr, .awaitExpr,
   .postfixExpr, .updateSuffix, .callExpr, .trailer, .callSuffix, .argList, .spreadElement,
   .optionalAccess, .regularAccess, .indexAccess, .primary, .newExpr, .newCallee, .functionExpr,
   .parenExpr, .arrayLit, .objectLit, .property, .propertyPair, .propertyKey, .propertyShorthand,
   .literal, .number, .string, .dqChars, .sqChars, .boolean, .nullLit, .template, .templateChars,
   .templateSub, .regex, .regexBody, .regexFlags, .opNullish, .opOr, .opAnd, .opSeq, .opSne,
   .opEq, .opNe, .opLte, .opGte, .opLt, .opGt, .opAdd, .opSub, .opMul, .opPow, .opDiv, .opMod,
   .opInc, .opDec, .opNot, .opNeg, .opPlus, .opTypeof, .opInstanceof, .opIn, .identifierName,
   .identifier, .reserved, .keyword, .declKind, .forKind, .kwAsync, .kwFunction, .kwIf, .kwElse,
   .kwFor, .kwWhile, .kwDo, .kwReturn, .kwThrow, .kwBreak, .kwContinue, .kwTry, .kwCatch,
   .kwFinally, .kwNew, .kwAwait, .kwSwitch, .kwCase, .kwDefault, .kwClass, .kwExtends, .kwStatic]

/-- The name of a rule in messages. -/
def name : Rule → String
  | .endOfInput => "EOI"
  | .program => "program"
  | .statement => "statement"
  | .block => "block"
  | .emptyStmt => "empty_stmt"
  | .functionDecl => "function_decl"
  | .paramList => "param_list"
  | .param => "param"
  | .declareStmt => "declare_stmt"
  | .varDecl => "var_decl"
  | .declarator => "declarator"
  | .bindingTarget => "binding_target"
  | .bindingElement => "binding_element"
  | .restElement => "rest_element"
  | .arrayPattern => "array_pattern"
  | .patternSlot => "pattern_slot"
  | .objectPattern => "object_pattern"
  | .patternProp => "pattern_prop"
  | .patternPair => "pattern_pair"
  | .patternShorthand => "pattern_shorthand"
  | .ifStmt => "if_stmt"
  | .elseClause => "else_clause"
  | .switchStmt => "switch_stmt"
  | .switchCase => "switch_case"
  | .classDecl => "class_decl"
  | .classHeritage => "class_heritage"
  | .classMember => "class_member"
  | .methodDef => "method_def"
  | .classField => "class_field"
  | .accessor => "accessor"
  | .forLoopStmt => "for_loop_stmt"
  | .forStmt => "for_stmt"
  | .forInit => "for_init"
  | .forTest => "for_test"
  | .forUpdate => "for_update"
  | .whileStmt => "while_stmt"
  | .doWhileStmt => "do_while_stmt"
  | .returnStmt => "return_stmt"
  | .throwStmt => "throw_stmt"
  | .breakStmt => "break_stmt"
  | .continueStmt => "continue_stmt"
  | .tryStmt => "try_stmt"
  | .catchClause => "catch_clause"
  | .finallyClause => "finally_clause"
  | .labeledStmt => "labeled_stmt"
  | .exprStmt => "expr_stmt"
  | .unknownStmt => "unknown_stmt"
  | .balancedGroup => "balanced_group"
  | .groupContent => "group_content"
  | .expression => "expression"
  | .assignExpr => "assign_expr"
  | .assignment => "assignment"
  | .assignOp => "assign_op"
  | .arrowFunction => "arrow_function"
  | .arrowParams => "arrow_params"
  | .arrowBody => "arrow_body"
  | .ternaryExpr => "ternary_expr"
  | .nullishExpr => "nullish_expr"
  | .logicalOrExpr => "logical_or_expr"
  | .logicalAndExpr => "logical_and_expr"
  | .equalityExpr => "equality_expr"
  | .comparisonExpr => "comparison_expr"
  | .additiveExpr => "additive_expr"
  | .multiplicativeExpr => "multiplicative_expr"
  | .exponentExpr => "exponent_expr"
  | .unaryExpr => "unary_expr"
  | .awaitExpr => "await_expr"
  | .postfixExpr => "postfix_expr"
  | .updateSuffix => "update_suffix"
  | .callExpr => "call_expr"
  | .trailer => "postfix"
  | .callSuffix => "call_suffix"
  | .argList => "arg_list"
  | .spreadElement => "spread_element"
  | .optionalAccess => "optional_access"
  | .regularAccess => "regular_access"
  | .indexAccess => "index_access"
  | .primary => "primary"
  | .newExpr => "new_expr"
  | .newCallee => "new_callee"
  | .functionExpr => "function_expr"
  | .parenExpr => "paren_expr"
  | .arrayLit => "array_lit"
  | .objectLit => "object_lit"
  | .property => "property"
  | .propertyPair => "property_pair"
  | .propertyKey => "property_key"
  | .propertyShorthand => "property_shorthand"
  | .literal => "literal"
  | .number => "number"
  | .string => "string"
  | .dqChars => "dq_chars"
  | .sqChars => "sq_chars"
  | .boolean => "boolean"
  | .nullLit => "null_lit"
  | .template => "template"
  | .templateChars => "template_chars"
  | .templateSub => "template_sub"
  | .regex => "regex"
  | .regexBody => "regex_body"
  | .regexFlags => "regex_flags"
  | .opNullish => "op_nullish"
  | .opOr => "op_or"
  | .opAnd => "op_and"
  | .opSeq => "op_seq"
  | .opSne => "op_sne"
  | .opEq => "op_eq"
  | .opNe => "op_ne"
  | .opLte => "op_lte"
  | .opGte => "op_gte"
  | .opLt => "op_lt"
  | .opGt => "op_gt"
  | .opAdd => "op_add"
  | .opSub => "op_sub"
  | .opMul => "op_mul"
  | .opPow => "op_pow"
  | .opDiv => "op_div"
  | .opMod => "op_mod"
  | .opInc => "op_inc"
  | .opDec => "op_dec"
  | .opNot => "op_not"
  | .opNeg => "op_neg"
  | .opPlus => "op_plus"
  | .opTypeof => "op_typeof"
  | .opInstanceof => "op_instanceof"
  | .opIn => "op_in"
  | .identifierName => "identifier_name"
  | .identifier => "identifier"
  | .reserved => "reserved"
  | .keyword => "keyword"
  | .declKind => "decl_kind"
  | .forKind => "for_kind"
  | .kwAsync => "kw_async"
  | .kwFunction => "kw_function"
  | .kwIf => "kw_if"
  | .kwElse => "kw_else"
  | .kwFor => "kw_for"
  | .kwWhile => "kw_while"
  | .kwDo => "kw_do"
  | .kwReturn => "kw_return"
  | .kwThrow => "kw_throw"
  | .kwBreak => "kw_break"
  | .kwContinue => "kw_continue"
  | .kwTry => "kw_try"
  | .kwCatch => "kw_catch"
  | .kwFinally => "kw_finally"
  | .kwNew => "kw_new"
  | .kwAwait => "kw_await"
  | .kwSwitch => "kw_switch"
  | .kwCase => "kw_case"
  | .kwDefault => "kw_default"
  | .kwClass => "kw_class"
  | .kwExtends => "kw_extends"
  | .kwStatic => "kw_static"

end Rule

end EventLoop.Script
