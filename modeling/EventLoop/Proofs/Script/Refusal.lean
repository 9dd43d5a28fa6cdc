import EventLoop.Proofs.Script.Assembly
import EventLoop.Script.Parse

/-!
# What cannot be read is refused at a place of the text

A tree whose shape its rule does not prescribe has no meaning, and the error is
where the tree is (`failsAt_assemble`), whichever the rule and whatever is
missing.  A misplaced part is an error where it stands, or where the whole does
that it is a part of (`located_checkTree`).  So no error is off the text: it is
on the line of a tree, or on the line that matching got to (`located_parse`).
-/

namespace EventLoop.Script

/-- If there is no value, then because of an error at a span. -/
def FailsAt {α : Type} (span : Span) (x : Except AssemblyError α) : Prop :=
  ∀ error, x = .error error → error.span = span

theorem bind_error {α β : Type} {x : Except AssemblyError α} {f : α → Except AssemblyError β}
    {error : AssemblyError} (h : x >>= f = .error error) :
    x = .error error ∨ ∃ a, x = .ok a ∧ f a = .error error := by
  cases x with
  | error other => exact .inl (congrArg Except.error (Except.error.inj h))
  | ok a => exact .inr ⟨a, rfl, h⟩

namespace FailsAt

variable {α β : Type} {span : Span}

theorem ok (span : Span) (a : α) : FailsAt span (.ok a) :=
  fun _ h => nomatch h

theorem error {error : AssemblyError} (h : error.span = span) :
    FailsAt (α := α) span (.error error) := by
  intro other hother
  rwa [← Except.error.inj hother]

theorem need (what : String) (span : Span) (value? : Option α) :
    FailsAt span (Script.need what span value?) := by
  cases value? with
  | none => exact error rfl
  | some value => exact ok span value

theorem bind {x : Except AssemblyError α} {f : α → Except AssemblyError β} (h : FailsAt span x)
    (hf : ∀ a, FailsAt span (f a)) : FailsAt span (x >>= f) := by
  intro error herror
  rcases bind_error herror with hx | ⟨a, -, ha⟩
  · exact h error hx
  · exact hf a error ha

theorem map {x : Except AssemblyError α} (f : α → β) (h : FailsAt span x) :
    FailsAt span (x.map f) := by
  cases x with
  | error error =>
      intro other hother
      rw [← Except.error.inj hother]
      exact h error rfl
  | ok a => exact ok span (f a)

end FailsAt

/-! ## Rules -/

section Rules

variable {rule : Rule} {whole : Part} {parts : List Part}

theorem failsAt_stmt {x : Except AssemblyError Stmt}
    (h : assembleStmt? rule whole parts = some x) : FailsAt whole.span x := by
  cases rule with
  | statement | elseClause | finallyClause =>
      obtain rfl := Option.some.inj h
      exact .need _ _ _
  | block | emptyStmt | returnStmt | breakStmt | continueStmt | unknownStmt =>
      obtain rfl := Option.some.inj h
      exact .ok _ _
  | declareStmt =>
      obtain rfl := Option.some.inj h
      split
      · exact .ok _ _
      · exact .error rfl
  | switchStmt | classDecl | forStmt | throwStmt | tryStmt | exprStmt =>
      obtain rfl := Option.some.inj h
      exact .bind (.need _ _ _) fun _ => .ok _ _
  | functionDecl | ifStmt | whileStmt | doWhileStmt | labeledStmt =>
      obtain rfl := Option.some.inj h
      exact .bind (.need _ _ _) fun _ => .bind (.need _ _ _) fun _ => .ok _ _
  | forLoopStmt =>
      obtain rfl := Option.some.inj h
      exact .bind (.need _ _ _) fun _ => .bind (.need _ _ _) fun _ =>
        .bind (.need _ _ _) fun _ => .bind (.need _ _ _) fun _ => .ok _ _
  | _ => contradiction

theorem failsAt_pattern {x : Except AssemblyError Pattern}
    (h : assemblePattern? rule whole parts = some x) : FailsAt whole.span x := by
  cases rule with
  | param =>
      obtain rfl := Option.some.inj h
      exact .need _ _ _
  | bindingTarget =>
      obtain rfl := Option.some.inj h
      split
      · exact .ok _ _
      · exact .need _ _ _
  | bindingElement | patternShorthand | restElement =>
      obtain rfl := Option.some.inj h
      exact .bind (.need _ _ _) fun _ => .ok _ _
  | arrayPattern | objectPattern =>
      obtain rfl := Option.some.inj h
      exact .ok _ _
  | _ => contradiction

theorem failsAt_foldOperands (span : Span) (left : Expr) (tail : List Part) :
    FailsAt span (foldOperands span left tail) := by
  fun_induction foldOperands span left tail with
  | case1 left => exact .ok _ _
  | case2 left operator operand rest op right _ _ ih => exact ih
  | case3 | case4 => exact .error rfl

theorem failsAt_expr {x : Except AssemblyError Expr}
    (h : assembleExpr? rule whole parts = some x) : FailsAt whole.span x := by
  cases rule with
  | assignExpr | literal | parenExpr | templateSub | classHeritage =>
      obtain rfl := Option.some.inj h
      exact .need _ _ _
  | primary =>
      obtain rfl := Option.some.inj h
      split
      · exact .ok _ _
      · exact .need _ _ _
  | expression =>
      obtain rfl := Option.some.inj h
      split
      · exact .error rfl
      · exact .ok _ _
      · exact .ok _ _
  | ternaryExpr =>
      obtain rfl := Option.some.inj h
      split
      · exact .ok _ _
      · exact .ok _ _
      · exact .error rfl
  | spreadElement | arrowFunction | functionExpr | unaryExpr | awaitExpr | postfixExpr | callExpr
  | newCallee | newExpr | string =>
      obtain rfl := Option.some.inj h
      exact .bind (.need _ _ _) fun _ => .ok _ _
  | assignment =>
      obtain rfl := Option.some.inj h
      exact .bind (.need _ _ _) fun _ => .bind (.need _ _ _) fun _ =>
        .bind (.need _ _ _) fun _ => .ok _ _
  | nullishExpr | logicalOrExpr | logicalAndExpr | equalityExpr | comparisonExpr | additiveExpr
  | multiplicativeExpr | exponentExpr =>
      obtain rfl := Option.some.inj h
      exact .bind (.need _ _ _) fun left => failsAt_foldOperands whole.span left parts.tail
  | arrayLit | objectLit | boolean | nullLit | template | regex =>
      obtain rfl := Option.some.inj h
      exact .ok _ _
  | number =>
      obtain rfl := Option.some.inj h
      split
      · exact .ok _ _
      · exact .error rfl
  | _ => contradiction

theorem failsAt_piece : FailsAt whole.span (assemblePiece rule whole parts) := by
  cases rule with
  | patternPair | classMember | propertyPair | property | propertyKey | arrowBody | trailer =>
      dsimp only [assemblePiece]
      split
      all_goals first | exact .ok _ _ | exact .error rfl
  | patternProp =>
      dsimp only [assemblePiece]
      split
      · exact .ok _ _
      · exact .ok _ _
      · exact .bind (.need _ _ _) fun _ => .ok _ _
      · exact .error rfl
  | arrowParams =>
      dsimp only [assemblePiece]
      split
      · exact .ok _ _
      · exact .ok _ _
  | declarator | varDecl | catchClause | classField | optionalAccess | regularAccess
  | indexAccess =>
      exact .bind (.need _ _ _) fun _ => .ok _ _
  | methodDef =>
      exact .bind (.need _ _ _) fun _ => .bind (.need _ _ _) fun _ => .ok _ _
  | _ => exact .ok _ _

end Rules

/-- A tree without a meaning is the place of the error. -/
theorem failsAt_assemble (rule : Rule) (whole : Part) (parts : List Part) :
    FailsAt whole.span (assemble rule whole parts) := by
  unfold assemble
  split
  · exact (failsAt_stmt ‹_›).map _
  · split
    · exact (failsAt_expr ‹_›).map _
    · split
      · exact (failsAt_pattern ‹_›).map _
      · exact failsAt_piece

/-! ## Trees -/

mutual

theorem located_ofTree (map : LineMap) (tree : Peg.Tree Rule) {error : AssemblyError}
    (h : Part.ofTree map tree = .error error) : error.span.Located map := by
  match tree with
  | .node rule start stop children =>
      unfold Part.ofTree at h
      rcases bind_error h with hchildren | ⟨parts, -, h⟩
      · exact located_ofTrees map children hchildren
      · rcases bind_error h with hwhole | ⟨meaning, -, h⟩
        · rw [failsAt_assemble _ _ _ error hwhole]
          exact .span map start.offset stop.offset
        · contradiction

theorem located_ofTrees (map : LineMap) (trees : List (Peg.Tree Rule)) {error : AssemblyError}
    (h : Part.ofTrees map trees = .error error) : error.span.Located map := by
  match trees with
  | [] => contradiction
  | tree :: rest =>
      unfold Part.ofTrees at h
      rcases bind_error h with htree | ⟨part, -, h⟩
      · exact located_ofTree map tree htree
      · rcases bind_error h with hrest | ⟨parts, -, h⟩
        · exact located_ofTrees map rest hrest
        · contradiction

end

/-! ## Misplaced parts -/

theorem located_checkParts (map : LineMap) (start stop place : Nat) (roles : Roles)
    (children : List (Peg.Tree Rule)) {error : AssemblyError}
    (h : checkParts map (map.span start stop) roles place children = .error error) :
    error.span.Located map := by
  induction children generalizing roles place with
  | nil => contradiction
  | cons child rest ih =>
      obtain ⟨rule, first, last, inside⟩ := child
      rw [checkParts] at h
      split at h
      · exact ih _ _ h
      · obtain rfl := Except.error.inj h
        change Span.Located map (ite _ _ _)
        split
        · exact .span map start stop
        · exact .span map first.offset last.offset

mutual

theorem located_checkTree (map : LineMap) (tree : Peg.Tree Rule) {error : AssemblyError}
    (h : checkTree map tree = .error error) : error.span.Located map := by
  match tree with
  | .node rule start stop children =>
      rw [checkTree] at h
      rcases bind_error h with hkind | ⟨-, -, h⟩
      · rw [checkKind] at hkind
        split at hkind
        · rw [← Except.error.inj hkind]
          exact .span map start.offset stop.offset
        · contradiction
      · rcases bind_error h with hparts | ⟨-, -, hchildren⟩
        · exact located_checkParts map start.offset stop.offset 0 (rolesOf rule) children hparts
        · exact located_checkTrees map children hchildren

theorem located_checkTrees (map : LineMap) (trees : List (Peg.Tree Rule)) {error : AssemblyError}
    (h : checkTrees map trees = .error error) : error.span.Located map := by
  match trees with
  | [] => contradiction
  | tree :: rest =>
      rw [checkTrees] at h
      rcases bind_error h with htree | ⟨-, -, hrest⟩
      · exact located_checkTree map tree htree
      · exact located_checkTrees map rest hrest

end

/-! ## Texts -/

theorem located_readProgram (text : List Char) (trees : List (Peg.Tree Rule))
    {error : AssemblyError} (h : readProgram (.ofText text) trees = .error error) :
    error.span.Located (.ofText text) := by
  match trees with
  | [] =>
      obtain rfl := Except.error.inj h
      exact (congrArg Prod.fst (LineMap.lineColumn_ofText [] text)).symm
  | .node rule start stop children :: _ =>
      rw [readProgram] at h
      rcases bind_error h with hchecked | ⟨-, -, h⟩
      · exact located_checkTree _ _ hchecked
      · rcases bind_error h with hparts | ⟨parts, -, hnone⟩
        · exact located_ofTrees _ _ hparts
        · contradiction

/-- An error stands on a line of the text. -/
theorem located_parse {source : String} {error : ParseError} (h : parse source = .error error) :
    ∃ offset, error.span.startLine = (LineMap.ofText source.toList).lineAt offset := by
  unfold parse at h
  dsimp only at h
  split at h
  · rename_i attempts hmatch
    rw [← Except.error.inj h]
    exact ⟨attempts.offset, Nat.add_sub_cancel _ 1⟩
  · rename_i trees _
    cases hread : readProgram (.ofText source.toList) trees with
    | ok program =>
        rw [hread] at h
        contradiction
    | error error =>
        rw [hread] at h
        obtain rfl := Except.error.inj h
        exact ⟨_, located_readProgram _ _ hread⟩

end EventLoop.Script
