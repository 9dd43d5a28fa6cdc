import EventLoop.Peg.Grammar
import EventLoop.Script.Layout
import EventLoop.Script.Rule

/-!
# The script grammar

The subset of a scripting language that event-loop examples are written in.

Semicolons are optional.  Keywords are tokens that end at a word boundary, so
that a keyword is never the start of a longer name.  A statement that no other
rule accepts is kept as raw text (`unknownStmt`), as long as its brackets and
quotes balance.
-/

namespace EventLoop.Script

open Peg

/-- A rule as an expression. -/
instance : Coe Rule (Expr Rule) := ⟨.rule⟩

/-- A literal text as an expression. -/
def literal (s : String) : Expr Rule := .text s.toList

instance : Coe String (Expr Rule) := ⟨literal⟩

/-! ## Characters -/

/-- A character that a name starts with. -/
def isNameStart (c : Char) : Bool :=
  c.isAlpha || c = '_' || c = '$'

/-- A character that a name goes on with. -/
def isNameChar (c : Char) : Bool :=
  c.isAlphanum || c = '_' || c = '$'

/-- The quotes and brackets that raw text has to balance. -/
def isBracket (c : Char) : Bool :=
  c = '\x7b' || c = '\x7d' || c = '(' || c = ')' || c = '[' || c = ']'
    || c = '\x22' || c = '\x27' || c = '\x60'

/-- Any character. -/
def anyChar : Expr Rule := .char fun _ => true

/-- Any character but those of a class. -/
def charBut (excluded : Char → Bool) : Expr Rule :=
  .char fun c => !excluded c

/-- A backslash and the character it takes along. -/
def escapePair : Expr Rule := all ["\\", anyChar]

/-- The end of a word. -/
def wordEnd : Expr Rule := .unless (.char isNameChar)

/-- A word that nothing continues. -/
def word (s : String) : Expr Rule := all [s, wordEnd]

/-- One of some words that nothing continues. -/
def wordOf (words : List String) : Expr Rule :=
  all [oneOf (words.map literal), wordEnd]

/-- A name. -/
def name : Expr Rule := all [.char isNameStart, .many (.char isNameChar)]

/-! ## Parts that several rules share -/

/-- An expression once or more, with a text between. -/
def separated (separator : String) (e : Expr Rule) : Expr Rule :=
  all [e, .many (all [separator, e])]

/-- Operands with an operator between them. -/
def operands (operand : Rule) (operators : List Rule) : Expr Rule :=
  all [operand, .many (all [oneOf (operators.map .rule), operand])]

/-- An element of a list of values. -/
def listItem : Expr Rule := oneOf [Rule.spreadElement, Rule.assignExpr]

/-- A text between quotes, in which a backslash takes a character along. -/
def quotedText : Expr Rule :=
  oneOf
    [all ["\"", Rule.dqChars, "\""],
     all ["\x27", Rule.sqChars, "\x27"],
     all ["\x60", .many (oneOf [escapePair, charBut (· = '\x60')]), "\x60"]]

/-- The smallest piece of raw text: a balanced group, a quoted text or a
character that ends nothing. -/
def unknownUnit : Expr Rule :=
  oneOf
    [Rule.balancedGroup,
     quotedText,
     all
      [.unless (oneOf ["//", "/*"]),
       charBut fun c => isLineEnd c || c = ' ' || c = '\t' || c = ';' || isBracket c]]

/-- The start of the text, which layout may follow. -/
def textStart : Expr Rule := ""

/-- Spaces and tabs. -/
def inlineSpaces : Expr Rule := .many (.char fun c => c = ' ' || c = '\t')

/-- Groups of digits, which underscores may separate. -/
def digitsOf (isDigit : Char → Bool) : Expr Rule :=
  all [.char isDigit, .many (all [.optional "_", .char isDigit])]

/-- A digit in base sixteen. -/
def isHexDigit (c : Char) : Bool :=
  c.isDigit || ('a' ≤ c && c ≤ 'f') || ('A' ≤ c && c ≤ 'F')

/-- Decimal digits. -/
def digits : Expr Rule := digitsOf Char.isDigit

/-- The forms of a number. -/
def numberForm : Expr Rule :=
  oneOf
    [all [oneOf ["0x", "0X"], digitsOf isHexDigit],
     all [oneOf ["0b", "0B"], digitsOf fun c => c = '0' || c = '1'],
     all [oneOf ["0o", "0O"], digitsOf fun c => '0' ≤ c && c ≤ '7'],
     all
      [oneOf [all [digits, .optional (all [".", digits])], all [".", digits]],
       .optional (all [oneOf ["e", "E"], .optional (oneOf ["+", "-"]), digits])]]

/-- The characters of a text between two quotes of a kind. -/
def stringChars (quote : Char) : Expr Rule :=
  .many (oneOf [charBut fun c => c = quote || c = '\\' || isLineEnd c, escapePair])

/-- A backslash and a character of the same line. -/
def regexEscape : Expr Rule := all ["\\", charBut isLineEnd]

/-- A character class of a regular expression. -/
def regexClass : Expr Rule :=
  all ["[", .many (oneOf [regexEscape, charBut fun c => c = ']' || c = '\\' || isLineEnd c]), "]"]

/-- A character of a regular expression. -/
def regexChar : Expr Rule :=
  oneOf
    [regexEscape,
     regexClass,
     charBut fun c => c = '/' || c = '\\' || c = '[' || isLineEnd c]

/-- The words that are tried as keywords, in this order. -/
def keywords : List String :=
  ["const", "let", "var", "function", "async", "await", "return", "if", "else", "while", "do",
   "for", "in", "new", "true", "false", "null", "break", "continue", "try", "catch", "finally",
   "throw", "typeof", "instanceof", "switch", "case", "default", "class", "extends"]

/-! ## The rules -/

/-- How the rules of a script treat their parts. -/
def kind : Rule → RuleKind
  | .balancedGroup | .groupContent => .hidden
  | .string | .template | .regex => .joined
  | .templateSub => .spaced
  | .accessor | .assignOp | .unknownStmt | .updateSuffix | .number | .dqChars | .sqChars
  | .boolean | .nullLit | .templateChars | .regexBody | .regexFlags
  | .opNullish | .opOr | .opAnd | .opSeq | .opSne | .opEq | .opNe | .opLte | .opGte | .opLt
  | .opGt | .opAdd | .opSub | .opMul | .opPow | .opDiv | .opMod | .opInc | .opDec | .opNot
  | .opNeg | .opPlus | .opTypeof | .opInstanceof | .opIn
  | .identifierName | .identifier | .reserved | .keyword | .declKind | .forKind
  | .kwAsync | .kwFunction | .kwIf | .kwElse | .kwFor | .kwWhile | .kwDo | .kwReturn | .kwThrow
  | .kwBreak | .kwContinue | .kwTry | .kwCatch | .kwFinally | .kwNew | .kwAwait | .kwSwitch
  | .kwCase | .kwDefault | .kwClass | .kwExtends | .kwStatic => .token
  | _ => .plain

/-- What the rules of a script match. -/
def body : Rule → Expr Rule
  | .endOfInput => .endOfText
  | .program => all [textStart, .many Rule.statement, Rule.endOfInput]
  -- Statements
  | .statement =>
    oneOf
      [Rule.block, Rule.emptyStmt, Rule.functionDecl, Rule.declareStmt, Rule.ifStmt,
       Rule.switchStmt, Rule.classDecl, Rule.forLoopStmt, Rule.forStmt, Rule.whileStmt,
       Rule.doWhileStmt, Rule.returnStmt, Rule.throwStmt, Rule.breakStmt, Rule.continueStmt,
       Rule.tryStmt, Rule.labeledStmt, Rule.exprStmt, Rule.unknownStmt]
  | .block => all ["\x7b", .many Rule.statement, "\x7d"]
  | .emptyStmt => ";"
  | .functionDecl =>
    all
      [.optional Rule.kwAsync, Rule.kwFunction, .optional "*", Rule.identifier, "(",
       .optional Rule.paramList, ")", Rule.block]
  | .paramList => all [separated "," Rule.param, .optional ","]
  | .param => oneOf [Rule.restElement, Rule.bindingElement]
  | .declareStmt => all [Rule.varDecl, .optional ";"]
  | .varDecl => all [Rule.declKind, separated "," Rule.declarator]
  | .declarator =>
    all [Rule.bindingTarget, oneOf [all ["=", Rule.assignExpr], .unless "="]]
  -- Binding patterns
  | .bindingTarget => oneOf [Rule.arrayPattern, Rule.objectPattern, Rule.identifier]
  | .bindingElement => all [Rule.bindingTarget, .optional (all ["=", Rule.assignExpr])]
  | .restElement => all ["...", Rule.bindingTarget]
  | .arrayPattern => all ["[", separated "," Rule.patternSlot, "]"]
  | .patternSlot => .optional (oneOf [Rule.restElement, Rule.bindingElement])
  | .objectPattern =>
    all ["\x7b", .optional (all [separated "," Rule.patternProp, .optional ","]), "\x7d"]
  | .patternProp => oneOf [Rule.restElement, Rule.patternPair, Rule.patternShorthand]
  | .patternPair => all [Rule.propertyKey, ":", Rule.bindingElement]
  | .patternShorthand => all [Rule.identifier, .optional (all ["=", Rule.assignExpr])]
  -- Compound statements
  | .ifStmt =>
    all [Rule.kwIf, "(", Rule.expression, ")", Rule.statement, .optional Rule.elseClause]
  | .elseClause => all [Rule.kwElse, Rule.statement]
  | .switchStmt =>
    all [Rule.kwSwitch, "(", Rule.expression, ")", "\x7b", .many Rule.switchCase, "\x7d"]
  | .switchCase =>
    all
      [oneOf [all [Rule.kwCase, Rule.expression], Rule.kwDefault], ":", .many Rule.statement]
  | .classDecl =>
    all
      [Rule.kwClass, Rule.identifier, .optional Rule.classHeritage, "\x7b",
       .many Rule.classMember, "\x7d"]
  | .classHeritage => all [Rule.kwExtends, Rule.callExpr]
  | .classMember => oneOf [Rule.methodDef, Rule.classField, Rule.emptyStmt]
  | .methodDef =>
    all
      [.optional Rule.kwStatic, .optional Rule.kwAsync, .optional "*",
       oneOf [all [Rule.accessor, Rule.propertyKey], Rule.propertyKey], "(",
       .optional Rule.paramList, ")", Rule.block]
  | .classField =>
    all
      [.optional Rule.kwStatic, Rule.identifierName, .optional (all ["=", Rule.assignExpr]),
       .optional ";"]
  | .accessor => wordOf ["get", "set"]
  | .forLoopStmt =>
    all
      [Rule.kwFor, "(", .optional Rule.declKind, Rule.bindingTarget, Rule.forKind,
       Rule.expression, ")", Rule.statement]
  | .forStmt =>
    all
      [Rule.kwFor, "(", Rule.forInit, ";", Rule.forTest, ";", Rule.forUpdate, ")",
       Rule.statement]
  | .forInit => .optional (oneOf [Rule.varDecl, Rule.expression])
  | .forTest => .optional Rule.expression
  | .forUpdate => .optional Rule.expression
  | .whileStmt => all [Rule.kwWhile, "(", Rule.expression, ")", Rule.statement]
  | .doWhileStmt =>
    all
      [Rule.kwDo, Rule.statement, Rule.kwWhile, "(", Rule.expression, ")", .optional ";"]
  | .returnStmt => all [Rule.kwReturn, .optional Rule.expression, .optional ";"]
  | .throwStmt => all [Rule.kwThrow, Rule.expression, .optional ";"]
  | .breakStmt => all [Rule.kwBreak, .optional ";"]
  | .continueStmt => all [Rule.kwContinue, .optional ";"]
  | .tryStmt =>
    all [Rule.kwTry, Rule.block, .optional Rule.catchClause, .optional Rule.finallyClause]
  | .catchClause =>
    all [Rule.kwCatch, .optional (all ["(", Rule.identifier, ")"]), Rule.block]
  | .finallyClause => all [Rule.kwFinally, Rule.block]
  | .labeledStmt => all [Rule.identifier, ":", Rule.statement]
  | .exprStmt => all [Rule.expression, .optional ";"]
  -- Raw text up to the end of the line, a semicolon or an unmatched closing bracket
  | .unknownStmt =>
    all
      [.unless (oneOf [Rule.kwCase, Rule.kwDefault]), unknownUnit,
       .many (all [inlineSpaces, unknownUnit]), .optional (all [inlineSpaces, ";"])]
  | .balancedGroup =>
    oneOf
      [all ["\x7b", .many Rule.groupContent, "\x7d"],
       all ["(", .many Rule.groupContent, ")"],
       all ["[", .many Rule.groupContent, "]"]]
  | .groupContent => oneOf [Rule.balancedGroup, quotedText, charBut isBracket]
  -- Expressions
  | .expression => separated "," Rule.assignExpr
  | .assignExpr => oneOf [Rule.arrowFunction, Rule.assignment, Rule.ternaryExpr]
  | .assignment => all [Rule.callExpr, Rule.assignOp, Rule.assignExpr]
  | .assignOp =>
    oneOf ["+=", "-=", "*=", "/=", all ["=", .unless (oneOf ["=", ">"])]]
  | .arrowFunction =>
    all [.optional Rule.kwAsync, Rule.arrowParams, "=>", Rule.arrowBody]
  | .arrowParams => oneOf [Rule.identifier, all ["(", .optional Rule.paramList, ")"]]
  | .arrowBody => oneOf [Rule.block, Rule.assignExpr]
  | .ternaryExpr =>
    all
      [Rule.nullishExpr, .optional (all ["?", Rule.assignExpr, ":", Rule.assignExpr])]
  | .nullishExpr => operands .logicalOrExpr [.opNullish]
  | .logicalOrExpr => operands .logicalAndExpr [.opOr]
  | .logicalAndExpr => operands .equalityExpr [.opAnd]
  | .equalityExpr => operands .comparisonExpr [.opSeq, .opSne, .opEq, .opNe]
  | .comparisonExpr =>
    operands .additiveExpr [.opLte, .opGte, .opLt, .opGt, .opInstanceof, .opIn]
  | .additiveExpr => operands .multiplicativeExpr [.opAdd, .opSub]
  | .multiplicativeExpr => operands .exponentExpr [.opMul, .opDiv, .opMod]
  | .exponentExpr =>
    all [Rule.unaryExpr, .optional (all [Rule.opPow, Rule.exponentExpr])]
  | .unaryExpr =>
    oneOf
      [all
        [oneOf
          [Rule.opInc, Rule.opDec, Rule.opNot, Rule.opNeg, Rule.opPlus, Rule.opTypeof],
         Rule.unaryExpr],
       Rule.awaitExpr,
       Rule.postfixExpr]
  | .awaitExpr => all [Rule.kwAwait, Rule.unaryExpr]
  | .postfixExpr => all [Rule.callExpr, .optional Rule.updateSuffix]
  | .updateSuffix => oneOf ["++", "--"]
  | .callExpr => all [Rule.primary, .many Rule.trailer]
  | .trailer =>
    oneOf [Rule.callSuffix, Rule.optionalAccess, Rule.regularAccess, Rule.indexAccess]
  | .callSuffix => all ["(", .optional Rule.argList, ")"]
  | .argList => all [separated "," listItem, .optional ","]
  | .spreadElement => all ["...", Rule.assignExpr]
  | .optionalAccess => all ["?.", Rule.identifierName]
  | .regularAccess => all [".", Rule.identifierName]
  | .indexAccess => all ["[", Rule.expression, "]"]
  | .primary =>
    oneOf
      [Rule.literal, Rule.newExpr, Rule.functionExpr, Rule.arrayLit, Rule.objectLit,
       Rule.template, Rule.regex, Rule.parenExpr, Rule.identifier]
  | .newExpr => all [Rule.kwNew, Rule.newCallee, .optional Rule.callSuffix]
  | .newCallee => all [Rule.identifier, .many Rule.regularAccess]
  | .functionExpr =>
    all
      [.optional Rule.kwAsync, Rule.kwFunction, .optional Rule.identifier, "(",
       .optional Rule.paramList, ")", Rule.block]
  | .parenExpr => all ["(", Rule.expression, ")"]
  | .arrayLit => all ["[", .optional (separated "," listItem), .optional ",", "]"]
  | .objectLit =>
    all ["\x7b", .optional (all [separated "," Rule.property, .optional ","]), "\x7d"]
  | .property =>
    oneOf [Rule.spreadElement, Rule.methodDef, Rule.propertyPair, Rule.propertyShorthand]
  | .propertyPair => all [Rule.propertyKey, ":", Rule.assignExpr]
  | .propertyKey => oneOf [Rule.identifierName, Rule.string, Rule.number]
  | .propertyShorthand => Rule.identifier
  -- Literals
  | .literal => oneOf [Rule.number, Rule.string, Rule.boolean, Rule.nullLit]
  | .number => all [numberForm, wordEnd]
  | .string => oneOf [all ["\"", Rule.dqChars, "\""], all ["\x27", Rule.sqChars, "\x27"]]
  | .dqChars => stringChars '\x22'
  | .sqChars => stringChars '\x27'
  | .boolean => wordOf ["true", "false"]
  | .nullLit => word "null"
  | .template =>
    all ["\x60", .many (oneOf [Rule.templateChars, Rule.templateSub]), "\x60"]
  | .templateChars =>
    let piece :=
      oneOf
        [all [.unless "$\x7b", charBut fun c => c = '\x60' || c = '\\'], escapePair]
    all [piece, .many piece]
  | .templateSub => all ["$\x7b", Rule.expression, "\x7d"]
  | .regex => all ["/", Rule.regexBody, "/", Rule.regexFlags]
  | .regexBody =>
    all [.unless (.char fun c => c = '*' || c = '/'), regexChar, .many regexChar]
  | .regexFlags => .many (.char isNameChar)
  -- Operators
  | .opNullish => "??"
  | .opOr => "||"
  | .opAnd => "&&"
  | .opSeq => "==="
  | .opSne => "!=="
  | .opEq => "=="
  | .opNe => "!="
  | .opLte => "<="
  | .opGte => ">="
  | .opLt => "<"
  | .opGt => ">"
  | .opAdd => all ["+", .unless (oneOf ["+", "="])]
  | .opSub => all ["-", .unless (oneOf ["-", "="])]
  | .opMul => all ["*", .unless (oneOf ["*", "="])]
  | .opPow => all ["**", .unless "="]
  | .opDiv => all ["/", .unless (oneOf ["/", "*", "="])]
  | .opMod => all ["%", .unless "="]
  | .opInc => "++"
  | .opDec => "--"
  | .opNot => all ["!", .unless "="]
  | .opNeg => "-"
  | .opPlus => "+"
  | .opTypeof => word "typeof"
  | .opInstanceof => word "instanceof"
  | .opIn => word "in"
  -- Names and keywords
  | .identifierName => name
  | .identifier => all [.unless Rule.reserved, name]
  | .reserved => all [Rule.keyword, wordEnd]
  | .keyword => oneOf (keywords.map literal)
  | .declKind => wordOf ["const", "let", "var"]
  | .forKind => wordOf ["of", "in"]
  | .kwAsync => word "async"
  | .kwFunction => word "function"
  | .kwIf => word "if"
  | .kwElse => word "else"
  | .kwFor => word "for"
  | .kwWhile => word "while"
  | .kwDo => word "do"
  | .kwReturn => word "return"
  | .kwThrow => word "throw"
  | .kwBreak => word "break"
  | .kwContinue => word "continue"
  | .kwTry => word "try"
  | .kwCatch => word "catch"
  | .kwFinally => word "finally"
  | .kwNew => word "new"
  | .kwAwait => word "await"
  | .kwSwitch => word "switch"
  | .kwCase => word "case"
  | .kwDefault => word "default"
  | .kwClass => word "class"
  | .kwExtends => word "extends"
  | .kwStatic => word "static"

/-- The grammar of scripts. -/
def grammar : Grammar Rule :=
  { kind, body, skipLayout, shared := [.statement, .expression, .assignExpr, .argList] }

end EventLoop.Script
