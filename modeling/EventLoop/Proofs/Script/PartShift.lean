import EventLoop.Proofs.Script.Readable
import EventLoop.Proofs.Script.Shift

/-!
# Parts further on

What is put together from parts that are moved is what is put together from the parts, moved
in the same way: values are chosen from the same parts, and spans are merged as before.  The
rules are looked at one by one, and each of them is a matter of which values it chooses
(`assembleStmt?_shift`, `assemblePattern?_shift`, `assembleExpr?_shift`,
`assemblePiece_shift`).  A rule that fails does so further on.
-/

namespace EventLoop.Script

/-! ## Parts further on -/

/-- A meaning that is read so far further on. -/
def Meaning.shift (d : Shift) : Meaning → Meaning
  | .token => .token
  | .stmt value => .stmt (value.shift d)
  | .expr value => .expr (value.shift d)
  | .exprs values => .exprs (shiftExprs d values)
  | .pattern value => .pattern (value.shift d)
  | .params values => .params (shiftPatterns d values)
  | .slot value => .slot (value.map (Pattern.shift d))
  | .patternProperty name target => .patternProperty name (target.shift d)
  | .declarator value => .declarator (value.shift d)
  | .declaration kind declarators => .declaration kind (shiftDeclarators d declarators)
  | .init value => .init (value.map (Stmt.shift d))
  | .clause value => .clause (value.map (Expr.shift d))
  | .switchCase value => .switchCase (value.shift d)
  | .handler name caught => .handler name (caught.shift d)
  | .member value => .member (value.map (ClassMember.shift d))
  | .method name isStatic function => .method name isStatic (function.shift d)
  | .property name nameSpan value => .property name (nameSpan.shift d) (value.shift d)
  | .key text => .key text
  | .body value => .body (value.shift d)
  | .args values => .args (shiftExprs d values)
  | .access isOptional name nameSpan => .access isOptional name (nameSpan.shift d)
  | .index value => .index (value.shift d)

/-- A part that is read so far further on. -/
def Part.shift (d : Shift) (part : Part) : Part :=
  ⟨part.rule, part.start.shift d.bytes, part.stop.shift d.bytes, part.span.shift d,
    part.meaning.shift d⟩

/-- An error at a place that is so far further on. -/
def AssemblyError.shift (d : Shift) : AssemblyError → AssemblyError
  | .nothing => .nothing
  | .missing text span => .missing text (span.shift d)
  | .misplaced role place rule span => .misplaced role place rule (span.shift d)
  | .unknownKind token span => .unknownKind token (span.shift d)
  | .unreadableNumber token span => .unreadableNumber token (span.shift d)

/-- A value or an error, each of them moved in its own way. -/
def moved {α : Type} (d : Shift) (move : α → α) :
    Except AssemblyError α → Except AssemblyError α
  | .ok value => .ok (move value)
  | .error error => .error (error.shift d)

variable (d : Shift)

@[simp]
theorem Part.rule_shift (part : Part) : (part.shift d).rule = part.rule := rfl

@[simp]
theorem Part.span_shift (part : Part) : (part.shift d).span = part.span.shift d := rfl

@[simp]
theorem Part.text_shift (part : Part) : (part.shift d).text = part.text :=
  Cursor.textTo_shift d.bytes part.start part.stop

@[simp]
theorem Part.string_shift (part : Part) : (part.shift d).string = part.string :=
  congrArg String.ofList (part.text_shift d)

@[simp]
theorem Part.identExpr_shift (part : Part) : (part.shift d).identExpr = part.identExpr.shift d := by
  rw [identExpr, string_shift]
  rfl

@[simp]
theorem Part.identPattern_shift (part : Part) :
    (part.shift d).identPattern = part.identPattern.shift d := by
  rw [identPattern, string_shift]
  rfl

/-! ## What may fail -/

section Moved

variable {d} {α β : Type} {move : α → α} {next : β → β}

theorem need_moved (what : String) (span : Span) (value? : Option α) :
    need what (span.shift d) (value?.map move) = moved d move (need what span value?) := by
  cases value? <;> rfl

/-- What does not depend on the place is there, or is missing further on. -/
theorem need_still (what : String) (span : Span) (value? : Option α) :
    need what (span.shift d) value? = moved d id (need what span value?) := by
  cases value? <;> rfl

/-- One thing after the other. -/
theorem bind_moved {x later : Except AssemblyError α} {f g : α → Except AssemblyError β}
    (hx : later = moved d move x) (hf : ∀ value, g (move value) = moved d next (f value)) :
    later >>= g = moved d next (x >>= f) := by
  rw [hx]
  cases x with
  | error error => rfl
  | ok value => exact hf value

theorem map_moved (wrap : α → β) (move : α → α) (next : β → β)
    (hwrap : ∀ value, wrap (move value) = next (wrap value)) (x : Except AssemblyError α) :
    (moved d move x).map wrap = moved d next (x.map wrap) := by
  cases x with
  | error error => rfl
  | ok value => exact congrArg Except.ok (hwrap value)

end Moved

/-! ## Choosing parts -/

section Choosing

variable (parts : List Part)

theorem filterMap_shift {α : Type} {pick : Part → Option α} (move : α → α)
    (hpick : ∀ part, pick (part.shift d) = (pick part).map move) :
    (parts.map (Part.shift d)).filterMap pick = (parts.filterMap pick).map move := by
  rw [List.filterMap_map, List.map_filterMap]
  exact congrArg (parts.filterMap ·) (funext hpick)

theorem findSome?_shift {α : Type} {pick : Part → Option α} (move : α → α)
    (hpick : ∀ part, pick (part.shift d) = (pick part).map move) :
    (parts.map (Part.shift d)).findSome? pick = (parts.findSome? pick).map move := by
  rw [List.findSome?_map, List.map_findSome?]
  exact congrArg (parts.findSome? ·) (funext hpick)

theorem bind_shift {α : Type} {pick : Part → Option α} (move : α → α)
    (hpick : ∀ part, pick (part.shift d) = (pick part).map move) (part? : Option Part) :
    (part?.map (Part.shift d)).bind pick = (part?.bind pick).map move := by
  cases part? with
  | none => rfl
  | some part => exact hpick part

@[simp]
theorem stmtsOf_shift : stmtsOf (parts.map (Part.shift d)) = shiftStmts d (stmtsOf parts) := by
  rw [shiftStmts_eq]
  apply filterMap_shift
  rintro ⟨_, _, _, _, meaning⟩
  cases meaning <;> rfl

@[simp]
theorem exprsOf_shift : exprsOf (parts.map (Part.shift d)) = shiftExprs d (exprsOf parts) := by
  rw [shiftExprs_eq]
  apply filterMap_shift
  rintro ⟨_, _, _, _, meaning⟩
  cases meaning <;> rfl

@[simp]
theorem patternsOf_shift :
    patternsOf (parts.map (Part.shift d)) = shiftPatterns d (patternsOf parts) := by
  rw [shiftPatterns_eq]
  apply filterMap_shift
  rintro ⟨_, _, _, _, meaning⟩
  cases meaning <;> rfl

@[simp]
theorem paramsOf_shift :
    paramsOf (parts.map (Part.shift d)) = shiftPatterns d (paramsOf parts) := by
  rw [shiftPatterns_eq]
  unfold paramsOf
  rw [List.flatMap_map, List.map_flatMap]
  refine congrArg (parts.flatMap ·) (funext fun part => ?_)
  obtain ⟨_, _, _, _, meaning⟩ := part
  cases meaning with
  | params values => exact shiftPatterns_eq d values
  | _ => rfl

@[simp]
theorem argsOf_shift : argsOf (parts.map (Part.shift d)) = shiftExprs d (argsOf parts) := by
  rw [shiftExprs_eq]
  unfold argsOf
  rw [List.flatMap_map, List.map_flatMap]
  refine congrArg (parts.flatMap ·) (funext fun part => ?_)
  obtain ⟨_, _, _, _, meaning⟩ := part
  cases meaning with
  | exprs values => exact shiftExprs_eq d values
  | args values => exact shiftExprs_eq d values
  | _ => rfl

@[simp]
theorem partOf?_shift (rule : Rule) :
    partOf? (parts.map (Part.shift d)) rule = (partOf? parts rule).map (Part.shift d) := by
  unfold partOf?
  rw [List.find?_map]
  rfl

@[simp]
theorem hasPart_shift (rule : Rule) :
    hasPart (parts.map (Part.shift d)) rule = hasPart parts rule := by
  rw [hasPart, partOf?_shift, Option.isSome_map, hasPart]

@[simp]
theorem textOf?_shift (rule : Rule) :
    textOf? (parts.map (Part.shift d)) rule = textOf? parts rule := by
  rw [textOf?, partOf?_shift, Option.map_map, textOf?]
  exact congrArg ((partOf? parts rule).map ·) (funext (Part.string_shift d))

@[simp]
theorem stmtOf?_shift (rule : Rule) :
    stmtOf? (parts.map (Part.shift d)) rule = (stmtOf? parts rule).map (Stmt.shift d) := by
  unfold stmtOf?
  rw [List.filter_map]
  change (stmtsOf ((parts.filter (·.rule = rule)).map (Part.shift d))).head? = _
  rw [stmtsOf_shift, shiftStmts_eq, List.head?_map]

end Choosing

/-! ## Parts that take some work -/

theorem foldOperands_shift (span : Span) (tail : List Part) (left : Expr) :
    foldOperands (span.shift d) (left.shift d) (tail.map (Part.shift d)) =
      moved d (Expr.shift d) (foldOperands span left tail) := by
  fun_induction foldOperands span left tail with
  | case1 left => rfl
  | case2 left operator operand rest op right hmeaning hop ih =>
      have hright : (operand.shift d).meaning = .expr (right.shift d) :=
        congrArg (Meaning.shift d) hmeaning
      rw [List.map_cons, List.map_cons, foldOperands, Part.rule_shift, hop, hright, ← ih]
      dsimp only
      rw [Expr.span_shift, Expr.span_shift, Span.merge_shift]
      rfl
  | case3 left operator operand rest hother =>
      rw [List.map_cons, List.map_cons, foldOperands, Part.rule_shift]
      obtain ⟨_, _, _, _, meaning⟩ := operand
      cases hop : binaryOpOf? operator.rule with
      | none => rfl
      | some op =>
          cases meaning with
          | expr right => exact absurd rfl (hother op right hop)
          | _ => rfl
  | case4 left operator => rfl

theorem foldTrailers_shift (tail : List Part) (e : Expr) :
    foldTrailers (e.shift d) (tail.map (Part.shift d)) = (foldTrailers e tail).shift d := by
  induction tail generalizing e with
  | nil => rfl
  | cons part rest ih =>
      rw [List.map_cons, foldTrailers, foldTrailers, ← ih, Expr.span_shift, Part.span_shift,
        Span.merge_shift]
      obtain ⟨_, _, _, _, meaning⟩ := part
      cases meaning <;> rfl

theorem elementsOf_shift (slots : List (Option Pattern)) :
    elementsOf (slots.map (Option.map (Pattern.shift d))) = shiftElements d (elementsOf slots) := by
  rw [shiftElements_eq]
  unfold elementsOf
  rw [List.getLast?_map]
  cases slots.getLast? with
  | none => rfl
  | some slot =>
      cases slot with
      | none => exact List.map_dropLast.symm
      | some element => rfl

theorem templateOf_shift (parts : List Part) :
    templateOf (parts.map (Part.shift d)) =
      ((templateOf parts).1, (templateOf parts).2.1, shiftExprs d (templateOf parts).2.2) := by
  induction parts with
  | nil => rfl
  | cons part rest ih =>
      rw [List.map_cons, templateOf, templateOf, ih, Part.text_shift]
      obtain ⟨_, _, _, _, meaning⟩ := part
      cases meaning <;> rfl

theorem functionOf_shift (name : Option String) (isArrow : Bool) (body : FunctionBody)
    (span : Span) (parts : List Part) :
    functionOf name isArrow (body.shift d) (span.shift d) (parts.map (Part.shift d)) =
      (functionOf name isArrow body span parts).shift d := by
  rw [functionOf, paramsOf_shift, hasPart_shift]
  rfl

/-! ## Rules -/

section Rules

variable (whole : Part) (parts : List Part)

theorem firstStmt_moved (what : String) (span : Span) :
    need what (span.shift d) (stmtsOf (parts.map (Part.shift d))).head? =
      moved d (Stmt.shift d) (need what span (stmtsOf parts).head?) := by
  rw [stmtsOf_shift, shiftStmts_eq, List.head?_map, need_moved]

theorem firstExpr_moved (what : String) (span : Span) :
    need what (span.shift d) (exprsOf (parts.map (Part.shift d))).head? =
      moved d (Expr.shift d) (need what span (exprsOf parts).head?) := by
  rw [exprsOf_shift, shiftExprs_eq, List.head?_map, need_moved]

theorem firstPattern_moved (what : String) (span : Span) :
    need what (span.shift d) (patternsOf (parts.map (Part.shift d))).head? =
      moved d (Pattern.shift d) (need what span (patternsOf parts).head?) := by
  rw [patternsOf_shift, shiftPatterns_eq, List.head?_map, need_moved]

theorem part_moved (what : String) (span : Span) (rule : Rule) :
    need what (span.shift d) (partOf? (parts.map (Part.shift d)) rule) =
      moved d (Part.shift d) (need what span (partOf? parts rule)) := by
  rw [partOf?_shift, need_moved]

theorem text_moved (what : String) (span : Span) (rule : Rule) :
    need what (span.shift d) (textOf? (parts.map (Part.shift d)) rule) =
      moved d id (need what span (textOf? parts rule)) := by
  rw [textOf?_shift, need_still]

@[simp]
theorem headExpr?_shift :
    (exprsOf (parts.map (Part.shift d))).head? = shiftExpr? d (exprsOf parts).head? := by
  rw [exprsOf_shift, shiftExprs_eq, List.head?_map, shiftExpr?_eq]

theorem assembleStmt?_shift (rule : Rule) :
    assembleStmt? rule (whole.shift d) (parts.map (Part.shift d)) =
      (assembleStmt? rule whole parts).map (moved d (Stmt.shift d)) := by
  have hstmt (what : String) := firstStmt_moved d parts what whole.span
  have hexpr (what : String) := firstExpr_moved d parts what whole.span
  have htext (what : String) := text_moved d parts what whole.span
  cases rule with
  | statement | elseClause | finallyClause => exact congrArg some (hstmt _)
  | block =>
      simp only [assembleStmt?, stmtsOf_shift]
      rfl
  | emptyStmt | breakStmt | continueStmt => rfl
  | functionDecl =>
      refine congrArg some (bind_moved (htext _ _) fun name => bind_moved (hstmt _) fun body => ?_)
      rw [paramsOf_shift, hasPart_shift]
      rfl
  | declareStmt =>
      cases parts with
      | nil => rfl
      | cons part rest =>
          obtain ⟨_, _, _, _, meaning⟩ := part
          cases meaning <;> rfl
  | ifStmt =>
      refine congrArg some (bind_moved (hexpr _) fun test => bind_moved (hstmt _) fun body => ?_)
      rw [stmtsOf_shift, shiftStmts_eq, List.getElem?_map, ← shiftStmt?_eq]
      rfl
  | switchStmt =>
      refine congrArg some (bind_moved (hexpr _) fun discriminant => ?_)
      rw [filterMap_shift d parts _, ← shiftCases_eq]
      · rfl
      · rintro ⟨_, _, _, _, meaning⟩
        cases meaning <;> rfl
  | classDecl =>
      refine congrArg some (bind_moved (htext _ _) fun name => ?_)
      rw [headExpr?_shift, filterMap_shift d parts _, ← shiftMembers_eq]
      · rfl
      · rintro ⟨_, _, _, _, meaning⟩
        cases meaning <;> rfl
  | forLoopStmt =>
      refine congrArg some (bind_moved (firstPattern_moved d parts _ _) fun binding => ?_)
      refine bind_moved (htext _ _) fun kind => bind_moved (hexpr _) fun collection => ?_
      refine bind_moved (hstmt _) fun body => ?_
      rw [textOf?_shift]
      rfl
  | forStmt =>
      refine congrArg some (bind_moved (hstmt _) fun body => ?_)
      dsimp only
      rw [findSome?_shift d parts (Stmt.shift d), partOf?_shift, partOf?_shift,
        bind_shift d (Expr.shift d), bind_shift d (Expr.shift d), ← shiftStmt?_eq,
        ← shiftExpr?_eq, ← shiftExpr?_eq]
      · rfl
      all_goals
        rintro ⟨_, _, _, _, meaning⟩
        cases meaning <;> rfl
  | whileStmt =>
      exact congrArg some (bind_moved (hexpr _) fun test => bind_moved (hstmt _) fun body => rfl)
  | doWhileStmt =>
      exact congrArg some (bind_moved (hstmt _) fun body => bind_moved (hexpr _) fun test => rfl)
  | returnStmt =>
      simp only [assembleStmt?, headExpr?_shift]
      rfl
  | throwStmt => exact congrArg some (bind_moved (hexpr _) fun value => rfl)
  | tryStmt =>
      have hblock : need "Missing try block" (whole.span.shift d)
          (stmtOf? (parts.map (Part.shift d)) .block) =
          moved d (Stmt.shift d) (need "Missing try block" whole.span (stmtOf? parts .block)) := by
        rw [stmtOf?_shift, need_moved]
      refine congrArg some (bind_moved hblock fun body => ?_)
      rw [findSome?_shift d parts (Prod.map id (Stmt.shift d)), stmtOf?_shift, ← shiftStmt?_eq]
      · cases parts.findSome? _ <;> rfl
      · rintro ⟨_, _, _, _, meaning⟩
        cases meaning <;> rfl
  | labeledStmt =>
      exact congrArg some (bind_moved (htext _ _) fun label => bind_moved (hstmt _) fun body => rfl)
  | exprStmt => exact congrArg some (bind_moved (hexpr _) fun e => rfl)
  | unknownStmt =>
      simp only [assembleStmt?, Part.text_shift]
      rfl
  | _ => rfl

theorem assemblePattern?_shift (rule : Rule) :
    assemblePattern? rule (whole.shift d) (parts.map (Part.shift d)) =
      (assemblePattern? rule whole parts).map (moved d (Pattern.shift d)) := by
  have htarget (what : String) := firstPattern_moved d parts what whole.span
  cases rule with
  | param => exact congrArg some (htarget _)
  | bindingTarget =>
      simp only [assemblePattern?, partOf?_shift]
      cases partOf? parts .identifier with
      | none => exact congrArg some (htarget _)
      | some part => exact congrArg (some ∘ Except.ok) (part.identPattern_shift d)
  | bindingElement =>
      refine congrArg some (bind_moved (htarget _) fun target => ?_)
      rw [headExpr?_shift]
      cases (exprsOf parts).head? <;> rfl
  | patternShorthand =>
      refine congrArg some (bind_moved (part_moved d parts _ _ _) fun name => ?_)
      rw [headExpr?_shift, Part.identPattern_shift]
      cases (exprsOf parts).head? <;> rfl
  | restElement => exact congrArg some (bind_moved (htarget _) fun target => rfl)
  | arrayPattern =>
      simp only [assemblePattern?]
      rw [filterMap_shift d parts (Option.map (Pattern.shift d)), elementsOf_shift]
      · rfl
      · rintro ⟨_, _, _, _, meaning⟩
        cases meaning <;> rfl
  | objectPattern =>
      simp only [assemblePattern?]
      rw [filterMap_shift d parts (Prod.map id (Pattern.shift d)), ← shiftTargets_eq]
      · rfl
      · rintro ⟨_, _, _, _, meaning⟩
        cases meaning <;> rfl
  | _ => rfl

theorem assembleExpr?_shift (rule : Rule) :
    assembleExpr? rule (whole.shift d) (parts.map (Part.shift d)) =
      (assembleExpr? rule whole parts).map (moved d (Expr.shift d)) := by
  have hexpr (what : String) := firstExpr_moved d parts what whole.span
  have hstmt (what : String) := firstStmt_moved d parts what whole.span
  have htext (what : String) := text_moved d parts what whole.span
  cases rule with
  | assignExpr | literal | parenExpr | templateSub | classHeritage =>
      exact congrArg some (hexpr _)
  | primary =>
      simp only [assembleExpr?, partOf?_shift]
      cases partOf? parts .identifier with
      | none => exact congrArg some (hexpr _)
      | some part => exact congrArg (some ∘ Except.ok) (part.identExpr_shift d)
  | expression =>
      simp only [assembleExpr?, exprsOf_shift]
      match exprsOf parts with
      | [] => rfl
      | [e] => rfl
      | first :: second :: rest => rfl
  | spreadElement | awaitExpr => exact congrArg some (bind_moved (hexpr _) fun value => rfl)
  | assignment =>
      have hvalue : need "Missing assigned value" (whole.span.shift d)
          (exprsOf (parts.map (Part.shift d)))[1]? =
          moved d (Expr.shift d)
            (need "Missing assigned value" whole.span (exprsOf parts)[1]?) := by
        rw [exprsOf_shift, shiftExprs_eq, List.getElem?_map, need_moved]
      exact congrArg some (bind_moved (htext _ _) fun op => bind_moved hvalue fun value =>
        bind_moved (hexpr _) fun target => rfl)
  | arrowFunction =>
      simp only [assembleExpr?]
      rw [findSome?_shift d parts (FunctionBody.shift d)]
      · exact congrArg some (bind_moved (need_moved _ _ _) fun body =>
          congrArg Except.ok (functionOf_shift d none true body whole.span parts))
      · rintro ⟨_, _, _, _, meaning⟩
        cases meaning <;> rfl
  | functionExpr =>
      refine congrArg some (bind_moved (hstmt _) fun body => ?_)
      rw [textOf?_shift]
      exact congrArg Except.ok (functionOf_shift d _ _ (.block body) _ parts)
  | ternaryExpr =>
      simp only [assembleExpr?, exprsOf_shift]
      match exprsOf parts with
      | [] => rfl
      | [e] => rfl
      | [condition, consequent] => rfl
      | [condition, consequent, alternate] => rfl
      | condition :: consequent :: alternate :: other :: rest => rfl
  | nullishExpr | logicalOrExpr | logicalAndExpr | equalityExpr | comparisonExpr | additiveExpr
  | multiplicativeExpr | exponentExpr =>
      refine congrArg some (bind_moved (hexpr _) fun left => ?_)
      rw [← List.map_tail]
      exact foldOperands_shift d whole.span parts.tail left
  | unaryExpr =>
      -- the operator is known by the rule of the first part, which does not move
      have hoperator :
          (parts.map (Part.shift d)).head?.map Part.rule = parts.head?.map Part.rule := by
        rw [List.head?_map, Option.map_map]
        rfl
      simp only [assembleExpr?]
      rw [hoperator]
      generalize (parts.head?.map Part.rule).getD .unaryExpr = operator
      refine congrArg some (bind_moved (hexpr _) fun operand => ?_)
      cases unaryOpOf? operator with
      | some op => rfl
      | none =>
          dsimp only
          split
          · rfl
          · split <;> rfl
  | postfixExpr =>
      refine congrArg some (bind_moved (hexpr _) fun target => ?_)
      rw [textOf?_shift]
      cases textOf? parts .updateSuffix <;> rfl
  | callExpr =>
      refine congrArg some (bind_moved (hexpr _) fun head => ?_)
      rw [← List.map_tail]
      exact congrArg Except.ok (foldTrailers_shift d parts.tail head)
  | newCallee =>
      refine congrArg some (bind_moved (part_moved d parts _ _ _) fun head => ?_)
      rw [← List.map_tail, Part.identExpr_shift]
      exact congrArg Except.ok (foldTrailers_shift d parts.tail head.identExpr)
  | newExpr =>
      refine congrArg some (bind_moved (hexpr _) fun callee => ?_)
      rw [argsOf_shift]
      rfl
  | arrayLit =>
      simp only [assembleExpr?, exprsOf_shift]
      rfl
  | objectLit =>
      simp only [assembleExpr?]
      rw [filterMap_shift d parts (Prod.map id (Prod.map (Span.shift d) (Expr.shift d))),
        ← shiftProperties_eq]
      · rfl
      · rintro ⟨_, _, _, _, meaning⟩
        cases meaning <;> rfl
  | number =>
      simp only [assembleExpr?, Part.text_shift, Part.string_shift]
      cases numberValue? whole.text <;> rfl
  | string =>
      have hcontent : need "Missing string content" (whole.span.shift d)
          (parts.map (Part.shift d)).head? =
          moved d (Part.shift d) (need "Missing string content" whole.span parts.head?) := by
        rw [List.head?_map, need_moved]
      refine congrArg some (bind_moved hcontent fun content => ?_)
      rw [Part.text_shift]
      rfl
  | boolean =>
      simp only [assembleExpr?, Part.string_shift]
      rfl
  | template =>
      simp only [assembleExpr?, templateOf_shift]
      rfl
  | regex =>
      simp only [assembleExpr?, textOf?_shift]
      rfl
  | _ => rfl

theorem patternProp_shift :
    assemblePiece .patternProp (whole.shift d) (parts.map (Part.shift d)) =
      moved d (Meaning.shift d) (assemblePiece .patternProp whole parts) := by
  match parts with
  | [] => rfl
  | first :: second :: rest =>
      have hmany (whole first second : Part) (rest : List Part) :
          assemblePiece .patternProp whole (first :: second :: rest) =
            .error (.missing "Missing pattern property" whole.span) := by
        simp only [assemblePiece]
      rw [List.map_cons, List.map_cons, hmany, hmany]
      rfl
  | [⟨rule, start, stop, span, meaning⟩] =>
      -- of the meanings only a pattern is looked at together with the rule
      by_cases hrest : rule = .restElement
      · subst hrest
        cases meaning <;> rfl
      · cases meaning <;>
          simp only [assemblePiece, List.map_cons, List.map_nil, Part.shift, Meaning.shift]
        case pattern target =>
          rw [Pattern.names_shift]
          exact bind_moved (need_still _ _ _) fun name => rfl
        all_goals rfl

theorem assemblePiece_shift (rule : Rule) :
    assemblePiece rule (whole.shift d) (parts.map (Part.shift d)) =
      moved d (Meaning.shift d) (assemblePiece rule whole parts) := by
  have hexpr (what : String) := firstExpr_moved d parts what whole.span
  have hstmt (what : String) := firstStmt_moved d parts what whole.span
  have hpattern (what : String) := firstPattern_moved d parts what whole.span
  have htext (what : String) := text_moved d parts what whole.span
  cases rule with
  | paramList =>
      simp only [assemblePiece, patternsOf_shift]
      rfl
  | patternSlot =>
      simp only [assemblePiece, patternsOf_shift, shiftPatterns_eq, List.head?_map]
      rfl
  | patternPair =>
      match parts with
      | [] => rfl
      | [⟨_, _, _, _, first⟩] => cases first <;> rfl
      | [⟨_, _, _, _, first⟩, ⟨_, _, _, _, second⟩] => cases first <;> cases second <;> rfl
      | ⟨_, _, _, _, first⟩ :: ⟨_, _, _, _, second⟩ :: _ :: _ =>
          cases first <;> cases second <;> rfl
  | patternProp => exact patternProp_shift d whole parts
  | declarator =>
      refine bind_moved (hpattern _) fun target => ?_
      rw [headExpr?_shift]
      rfl
  | varDecl =>
      refine bind_moved (htext _ _) fun keyword => ?_
      dsimp only
      rw [filterMap_shift d parts (Declarator.shift d), ← shiftDeclarators_eq]
      · rfl
      · rintro ⟨_, _, _, _, meaning⟩
        cases meaning <;> rfl
  | forInit =>
      match parts with
      | [] => rfl
      | ⟨_, _, _, _, meaning⟩ :: _ => cases meaning <;> rfl
  | forTest | forUpdate =>
      simp only [assemblePiece, headExpr?_shift, shiftExpr?_eq]
      rfl
  | switchCase =>
      simp only [assemblePiece, headExpr?_shift, stmtsOf_shift]
      rfl
  | catchClause =>
      refine bind_moved (hstmt _) fun body => ?_
      rw [textOf?_shift]
      rfl
  | methodDef =>
      simp only [assemblePiece]
      rw [findSome?_shift d parts id]
      · refine bind_moved (need_moved _ _ _) fun name => bind_moved (hstmt _) fun body => ?_
        rw [hasPart_shift]
        have hfunction := functionOf_shift d (some name) false (.block body) whole.span parts
        exact congrArg (Except.ok ∘ Meaning.method name (hasPart parts .kwStatic)) hfunction
      · rintro ⟨_, _, _, _, meaning⟩
        cases meaning <;> rfl
  | classField =>
      refine bind_moved (htext _ _) fun name => ?_
      rw [hasPart_shift, headExpr?_shift]
      rfl
  | classMember =>
      match parts with
      | [] => rfl
      | [⟨_, _, _, _, meaning⟩] => cases meaning <;> rfl
      | ⟨_, _, _, _, meaning⟩ :: _ :: _ => cases meaning <;> rfl
  | propertyPair =>
      match parts with
      | [] => rfl
      | [⟨_, _, _, _, first⟩] => cases first <;> rfl
      | [⟨_, _, _, _, first⟩, ⟨_, _, _, _, second⟩] => cases first <;> cases second <;> rfl
      | ⟨_, _, _, _, first⟩ :: ⟨_, _, _, _, second⟩ :: _ :: _ =>
          cases first <;> cases second <;> rfl
  | propertyShorthand =>
      simp only [assemblePiece, Part.string_shift, Part.identExpr_shift]
      rfl
  | property =>
      match parts with
      | [] => rfl
      | [⟨_, _, _, _, meaning⟩] => cases meaning <;> rfl
      | ⟨_, _, _, _, meaning⟩ :: _ :: _ => cases meaning <;> rfl
  | propertyKey =>
      match parts with
      | [] => rfl
      | [⟨rule, start, stop, span, meaning⟩] =>
          have hkey :
              (.ok (.key (Part.shift d ⟨rule, start, stop, span, meaning⟩).string) :
                Except AssemblyError Meaning) =
              .ok (.key (Part.string ⟨rule, start, stop, span, meaning⟩)) := by
            rw [Part.string_shift]
          cases meaning with
          | expr e =>
              cases e with
              | string value _ => rfl
              | _ => exact hkey
          | _ => exact hkey
      | ⟨_, _, _, _, meaning⟩ :: _ :: _ =>
          cases meaning with
          | expr e => cases e <;> rfl
          | _ => rfl
  | arrowParams =>
      simp only [assemblePiece, partOf?_shift, paramsOf_shift]
      cases partOf? parts .identifier with
      | none => rfl
      | some part =>
          simp only [Option.map_some, Part.identPattern_shift]
          rfl
  | arrowBody =>
      match parts with
      | [] => rfl
      | [⟨_, _, _, _, meaning⟩] => cases meaning <;> rfl
      | ⟨_, _, _, _, meaning⟩ :: _ :: _ => cases meaning <;> rfl
  | trailer =>
      match parts with
      | [] => rfl
      | [part] => rfl
      | _ :: _ :: _ => rfl
  | callSuffix =>
      simp only [assemblePiece, argsOf_shift]
      rfl
  | argList =>
      simp only [assemblePiece, exprsOf_shift]
      rfl
  | optionalAccess | regularAccess =>
      refine bind_moved (part_moved d parts _ _ _) fun name => ?_
      rw [Part.string_shift]
      rfl
  | indexAccess => exact bind_moved (hexpr _) fun value => rfl
  | _ => rfl

end Rules

/-! ## Any rule -/

theorem assemble_shift (rule : Rule) (whole : Part) (parts : List Part) :
    assemble rule (whole.shift d) (parts.map (Part.shift d)) =
      moved d (Meaning.shift d) (assemble rule whole parts) := by
  unfold assemble
  rw [assembleStmt?_shift, assembleExpr?_shift, assemblePattern?_shift, assemblePiece_shift]
  cases assembleStmt? rule whole parts with
  | some stmt => exact map_moved .stmt (Stmt.shift d) (Meaning.shift d) (fun _ => rfl) stmt
  | none =>
      cases assembleExpr? rule whole parts with
      | some expr => exact map_moved .expr (Expr.shift d) (Meaning.shift d) (fun _ => rfl) expr
      | none =>
          cases assemblePattern? rule whole parts with
          | some pattern =>
              exact map_moved .pattern (Pattern.shift d) (Meaning.shift d) (fun _ => rfl) pattern
          | none => rfl

end EventLoop.Script
