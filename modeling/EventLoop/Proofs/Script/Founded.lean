import EventLoop.Proofs.Peg.Adequacy
import EventLoop.Proofs.Script.Tree
import EventLoop.Script.Parse

/-!
# The script grammar is founded

No rule of the grammar uses itself before it has read anything, and every round
of a repetition reads something.  So reading a script gives what the grammar says
of its text (`derives_match`), and every expression whose repetitions read on
matches or is refused anywhere (`matches_or_refused`).
-/

namespace EventLoop.Script

open Peg

/-- The rules that may match without reading. -/
def mayBeEmpty : Rule → Bool
  | .endOfInput | .program | .patternSlot | .forInit | .forTest | .forUpdate | .dqChars | .sqChars
  | .regexFlags => true
  | _ => false

/-- How far a rule is above those that it may use before it has read anything. -/
def rank : Rule → Nat
  | .program => 20
  | .statement => 19
  | .forInit | .forTest | .forUpdate | .exprStmt => 18
  | .expression | .arrowBody | .argList => 17
  | .assignExpr => 16
  | .ternaryExpr => 15
  | .nullishExpr => 14
  | .logicalOrExpr => 13
  | .logicalAndExpr => 12
  | .equalityExpr => 11
  | .comparisonExpr => 10
  | .additiveExpr => 9
  | .multiplicativeExpr => 8
  | .exponentExpr => 7
  | .paramList | .unaryExpr => 6
  | .param | .patternSlot | .assignment | .postfixExpr => 5
  | .declarator | .bindingElement | .patternProp | .arrowFunction | .callExpr | .property => 4
  | .bindingTarget | .patternShorthand | .classMember | .labeledStmt | .arrowParams | .primary
  | .newCallee | .propertyShorthand => 3
  | .declareStmt | .patternPair | .methodDef | .propertyPair | .identifier => 2
  | .functionDecl | .varDecl | .ifStmt | .elseClause | .switchStmt | .switchCase | .classDecl
  | .classHeritage | .classField | .forLoopStmt | .forStmt | .whileStmt | .doWhileStmt
  | .returnStmt | .throwStmt | .breakStmt | .continueStmt | .tryStmt | .catchClause
  | .finallyClause | .unknownStmt | .groupContent | .awaitExpr | .trailer | .newExpr
  | .functionExpr | .propertyKey | .literal | .reserved => 1
  | _ => 0

/-- The rules that a rule may use first are below it. -/
theorem rank_lt : ∀ rule : Rule, ∀ used ∈ (body rule).starts mayBeEmpty, rank used < rank rule := by
  intro rule
  cases rule <;> decide

/-- The script grammar is founded. -/
def founded : grammar.Founded where
  mayBeEmpty := mayBeEmpty
  rank := rank
  skips := skips_grammar
  mayBeEmpty_of_body := by intro rule; cases rule <;> decide
  rank_lt := rank_lt
  moves := by intro rule; cases rule <;> decide

theorem rank_le (rule : Rule) : founded.rank rule ≤ Rule.all.length := by
  have hrank : rank rule ≤ 20 := by cases rule <;> decide
  have hcount : 20 ≤ Rule.all.length := by simp [Rule.all]
  exact Nat.le_trans hrank hcount

/-- Reading a script comes to what the grammar concludes of its text. -/
theorem concludes_match (text : List Char) :
    Concludes grammar .spaced (.rule .program) (.start text) (match? text) :=
  concludes_parse founded rank_le .program text

/-- Reading a script gives what the grammar says of its text. -/
theorem derives_match (text : List Char) :
    Derives grammar .spaced (.rule .program) (.start text) (match? text).match? :=
  derives_parse founded rank_le .program text

/-- An expression whose repetitions read on matches or is refused anywhere. -/
theorem matches_or_refused (mode : Mode) {e : Peg.Expr Rule} (hmoves : e.moves mayBeEmpty = true)
    (cursor : Cursor) :
    (∃ result, Matches grammar mode e cursor result) ∨ Derives grammar mode e cursor none := by
  obtain ⟨outcome, houtcome⟩ :=
    founded.total (fun r => Nat.lt_succ_of_le (rank_le r)) mode hmoves cursor
  cases outcome with
  | none => exact .inr houtcome
  | some result => exact .inl ⟨result, houtcome.matches result rfl⟩

end EventLoop.Script
