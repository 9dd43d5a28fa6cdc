import EventLoop.Proofs.Script.Operand

/-!
# The levels of operators

An operand with the accesses and calls behind it is read by the rule for unary operators
(`Chain.unaryExpr`), an operator before or behind an operand by the same rule (`reads_unary`,
`reads_await`, `reads_counter`, `Chain.counter`), and operands with binary operators between them
by the rule for the precedence of these (`Chain.rung`, `reads_pow`).  All rules above read it, if
no operator of theirs follows (`Reads.lower`).  Conditions, assignments and lists with commas have
rules of their own (`reads_ternary`, `reads_assignment`, `reads_sequence`).
-/

namespace EventLoop.Script

open Peg

variable {map : LineMap} {e : Expr} {place middle after : Cursor}

theorem ends_subset {bound level : Nat} (h : bound ≤ level) : ends bound ⊆ ends level := by
  refine List.append_subset.2 ⟨List.subset_append_left _ _, ?_⟩
  refine List.subset_append_of_subset_right _ (List.cons_subset_cons _ ?_)
  refine List.map_subset _ fun op hop => ?_
  obtain ⟨hmem, hlt⟩ := List.mem_filter.1 hop
  exact List.mem_filter.2 ⟨hmem, decide_eq_true (Nat.lt_of_lt_of_le (of_decide_eq_true hlt) h)⟩

/-- An expression is read by all rules above the one for its operators, if no operators of theirs
follow. -/
theorem Reads.lower {bound level : Nat} (hpos : 0 < bound) (hle : bound ≤ level) (hlevel : level ≤ 9)
    (h : Reads map (rung level) e place after) (hfollows : Follows (ends bound) after) :
    Reads map (rung bound) e place after := by
  -- from the rule for its operators up to the bound, one rule after the other
  induction hle with
  | refl => exact h
  | @step level hle ih =>
      replace hle : bound ≤ level := hle
      have hstep := h.descend (by omega) (by omega) (hfollows.mono (ends_subset hle))
      exact ih (by omega) hstep

/-! ## Operands -/

/-- An operand is read with the accesses and calls behind it. -/
theorem Chain.callExpr (h : Chain map trailers e place after)
    (hfollows : Follows operandEnds after) : Reads map .callExpr e place after := by
  refine h.reads rfl rfl (hfollows.refused (by decide)) (fun _ => rfl)
    fun whole head behind left value hmeaning hfolds => ?_
  unfold assemble assembleStmt? assembleExpr?
  dsimp only
  rw [exprsOf_cons hmeaning]
  exact congrArg (fun value => Except.ok (Meaning.expr value)) hfolds

theorem Chain.unaryExpr (h : Chain map trailers e place after) {start : Start}
    (hmem : start ∈ operandStarts) (hat : start.At place) (hfollows : Follows (ends 9) after) :
    Reads map .unaryExpr e place after := by
  have hrefuses : ∀ start ∈ operandStarts, start.refuses (.rule .awaitExpr) = true ∧
      start.refuses (.seq (oneOf (signs.map .rule)) (.rule .unaryExpr)) = true := by
    decide
  obtain ⟨hawait, hsign⟩ := hrefuses start hmem
  have hpostfix : Reads map .postfixExpr e place after :=
    (h.callExpr (hfollows.mono (List.subset_append_left _ _))).followed rfl rfl rfl
      (.absent (hfollows.refused (by decide)))
  exact hpostfix.choice rfl rfl fun hmatch =>
    .altSecond (hat.refused hsign) (.altSecond (hat.refused hawait) hmatch)

/-! ## Operators before an operand -/

/-- A token among parts is no expression. -/
theorem exprsOf_token {part : Part} (h : part.meaning = .token) (parts : List Part) :
    exprsOf (part :: parts) = exprsOf parts := by
  unfold exprsOf
  rw [List.filterMap_cons_none]
  rw [h]

/-- An operator before its operand is read back. -/
theorem reads_unary {op : UnaryOp} {operand : Expr}
    (hdrop : place.drop? op.symbol.toList = some middle) {start : Start} (hmem : start ∈ operandStarts)
    (hat : start.At middle) (h : Reads map .unaryExpr operand middle after) (span : Span) :
    Reads map .unaryExpr (.unary op operand span) place after := by
  have hmisses : ∀ start ∈ operandStarts,
      (['+', '-', '='].all fun c => start.misses [c]) = true := by
    decide
  obtain ⟨last, hsign, hlast⟩ := matches_sign op hdrop hat (hmisses start hmem)
  obtain ⟨stop, children, hmatch, hstop, part, value, hpart, -, hmeaning, hvalue⟩ := h
  have htoken : Part.ofTree map (.node op.rule place last []) =
      .ok ⟨op.rule, place, last, map.span place.offset last.offset, .token⟩ :=
    ofTree_node rfl (by cases op <;> rfl)
  have hbody : Matches grammar .spaced (body .unaryExpr) place _ :=
    .altFirst _ (matches_seq hsign hlast hmatch)
  have hbare : (Expr.unary op value (map.span place.offset stop.offset)).shape =
      (Expr.unary op operand span).shape := by
    rw [Expr.shape, Expr.shape, hvalue]
  refine .of_body (by decide) hbody hstop (ofTrees_cons htoken (ofTrees_cons hpart rfl)) ?_ hbare
  unfold assemble assembleStmt? assembleExpr?
  dsimp only
  rw [exprsOf_token rfl, exprsOf_cons hmeaning]
  cases op <;> rfl

/-- An awaited operand is read back. -/
theorem reads_await {inner : Expr} (hdrop : place.drop? "await ".toList = some middle)
    (hsettled : skipLayout middle = middle) (h : Reads map .unaryExpr inner middle after)
    (span : Span) : Reads map .unaryExpr (.await inner span) place after := by
  have hword : place.drop? ("await".toList ++ ' ' :: []) = some middle := hdrop
  have hat : (Start.keyword "await").At place := Start.at_keyword_space (by decide) hword
  obtain ⟨last, hlast, hspace⟩ := Cursor.drop?_append_eq_some hword
  obtain ⟨offset, rest, rfl, hmiddle⟩ := Cursor.drop?_cons_eq_some hspace
  obtain rfl := Option.some.inj hmiddle
  obtain ⟨stop, children, hmatch, hstop, part, value, hpart, -, hmeaning, hvalue⟩ := h
  have hawait := matches_word (r := .kwAwait) rfl (List.mem_singleton_self "await") (by decide)
    (by decide) hlast rfl
  have htoken : Part.ofTree map (.node .kwAwait place ⟨offset, ' ' :: rest⟩ []) =
      .ok ⟨.kwAwait, _, _, _, .token⟩ := ofTree_node rfl rfl
  have hbody : Matches grammar .spaced (body .awaitExpr) place _ :=
    matches_seq hawait ((skipLayout_space offset rest).trans hsettled) hmatch
  have hbare : (Expr.await value (map.span place.offset stop.offset)).shape =
      (Expr.await inner span).shape := by
    rw [Expr.shape, Expr.shape, hvalue]
  have hreads : Reads map .awaitExpr (.await inner span) place after := by
    refine .of_body (by decide) hbody hstop (ofTrees_cons htoken (ofTrees_cons hpart rfl)) ?_ hbare
    unfold assemble assembleStmt? assembleExpr?
    dsimp only
    rw [exprsOf_token rfl, exprsOf_cons hmeaning]
    rfl
  exact hreads.choice rfl rfl fun hmatch =>
    .altSecond (hat.refused (by decide)) (.altFirst _ hmatch)

/-! ## Operators between operands -/

/-- Operands with operators of a precedence between them are read by the rule for it. -/
theorem Chain.rung {bound : Nat} (hpos : 0 < bound) (hbound : bound ≤ 7)
    (h : Chain map (operandsAt bound) e place after) (hfollows : Follows (ends bound) after) :
    Reads map (rung bound) e place after := by
  have hassemble {r : Rule} (hr : r ∈ [.nullishExpr, .logicalOrExpr, .logicalAndExpr, .equalityExpr,
      .comparisonExpr, .additiveExpr, .multiplicativeExpr]) (whole head : Part) (behind : List Part)
      (left value : Expr) (hmeaning : head.meaning = .expr left)
      (hfolds : (operandsAt bound).folds left behind value) :
      assemble r whole (head :: behind) = .ok (.expr value) := by
    have hfold : (foldOperands whole.span left behind).map Meaning.expr = .ok (.expr value) := by
      rw [hfolds whole.span]
      rfl
    simp only [List.mem_cons, List.not_mem_nil, or_false] at hr
    rcases hr with rfl | rfl | rfl | rfl | rfl | rfl | rfl
    all_goals
      unfold assemble assembleStmt? assembleExpr?
      dsimp only
      rw [exprsOf_cons hmeaning]
      exact hfold
  obtain rfl | rfl | rfl | rfl | rfl | rfl | rfl : bound = 1 ∨ bound = 2 ∨ bound = 3 ∨
      bound = 4 ∨ bound = 5 ∨ bound = 6 ∨ bound = 7 := by omega
  all_goals
    exact h.reads rfl rfl (hfollows.refused (by decide)) (fun _ _ => rfl)
      (hassemble (by decide))

/-- A power is read back. -/
theorem reads_pow {left right : Expr} {start : Cursor} (h : Reads map .unaryExpr left place middle)
    (hdrop : middle.drop? (' ' :: (BinaryOp.pow.symbol.toList ++ [' '])) = some start)
    (hstart : skipLayout start = start) (hright : Reads map .exponentExpr right start after)
    (span : Span) : Reads map .exponentExpr (.binary .pow left right span) place after := by
  obtain ⟨stop, rest, hsymbol, hspace, hstop⟩ := operator_between rfl hdrop hstart
  obtain ⟨first, children, hleftMatch, hfirst, leftPart, leftValue, hleftPart, -, hleftMeaning,
    hleftValue⟩ := h
  obtain ⟨last, others, hmatch, hlast, part, value, hpart, -, hmeaning, hvalue⟩ := hright
  have hoperator := matches_operator .pow hsymbol hspace
  have htoken : Part.ofTree map (.node .opPow (skipLayout middle) stop []) =
      .ok ⟨.opPow, _, _, _, .token⟩ := ofTree_node rfl rfl
  have hbody : Matches grammar .spaced (body .exponentExpr) place _ :=
    matches_seq hleftMatch hfirst (.present (matches_seq hoperator hstop hmatch))
  have hbare : (Expr.binary .pow leftValue value (leftValue.span.merge value.span)).shape =
      (Expr.binary .pow left right span).shape := by
    rw [Expr.shape, Expr.shape, hleftValue, hvalue]
  refine .of_body (by decide) hbody hlast
    (ofTrees_cons hleftPart (ofTrees_cons htoken (ofTrees_cons hpart rfl))) ?_ hbare
  unfold assemble assembleStmt? assembleExpr?
  dsimp only
  rw [exprsOf_cons hleftMeaning]
  change (foldOperands _ leftValue (_ :: part :: [])).map Meaning.expr = _
  rw [foldOperands, hmeaning]
  rfl

/-! ## Operators that count up or down -/

/-- An operator that counts up or down is read back before its operand. -/
theorem reads_counter {op : UpdateOp} {target : Expr}
    (hdrop : place.drop? op.symbol.toList = some middle) (hsettled : skipLayout middle = middle)
    (h : Reads map .unaryExpr target middle after) (span : Span) :
    Reads map .unaryExpr (.update op true target span) place after := by
  have hcounter := matches_counter op hdrop
  obtain ⟨stop, children, hmatch, hstop, part, value, hpart, -, hmeaning, hvalue⟩ := h
  have htoken : Part.ofTree map (.node op.rule place middle []) =
      .ok ⟨op.rule, place, middle, map.span place.offset middle.offset, .token⟩ :=
    ofTree_node rfl (by cases op <;> rfl)
  have hbody : Matches grammar .spaced (body .unaryExpr) place _ :=
    .altFirst _ (matches_seq hcounter hsettled hmatch)
  have hshape : (Expr.update op true value (map.span place.offset stop.offset)).shape =
      (Expr.update op true target span).shape := by
    rw [Expr.shape, Expr.shape, hvalue]
  refine .of_body (by decide) hbody hstop (ofTrees_cons htoken (ofTrees_cons hpart rfl)) ?_ hshape
  unfold assemble assembleStmt? assembleExpr?
  dsimp only
  rw [exprsOf_token rfl, exprsOf_cons hmeaning]
  cases op <;> rfl

/-- The text of a token behind an operand. -/
theorem textOf?_of_behind (r : Rule) {first token : Part} {text : String} (hfirst : first.rule ≠ r)
    (htoken : token.rule = r) (htext : token.string = text) (rest : List Part) :
    textOf? (first :: token :: rest) r = some text := by
  unfold textOf? partOf?
  rw [List.find?_cons_of_neg (by simpa using hfirst),
    List.find?_cons_of_pos (by simpa using htoken)]
  exact congrArg some htext

/-- An operator that counts up or down is read back behind its operand. -/
theorem Chain.counter {op : UpdateOp} {target : Expr} (h : Chain map trailers target place middle)
    {start : Start} (hmem : start ∈ operandStarts) (hat : start.At place)
    (hdrop : middle.drop? op.symbol.toList = some after) (span : Span) :
    Reads map .unaryExpr (.update op false target span) place after := by
  have hrefuses : ∀ start ∈ operandStarts, start.refuses (.rule .awaitExpr) = true ∧
      start.refuses (.seq (oneOf (signs.map .rule)) (.rule .unaryExpr)) = true := by
    decide
  obtain ⟨hawait, hsign⟩ := hrefuses start hmem
  obtain ⟨hfollows, hsettled⟩ := follows_counter hdrop
  obtain ⟨stop, children, hmatch, hstop, part, value, hpart, hrule, hmeaning, hvalue⟩ :=
    h.callExpr (hfollows.mono (by decide))
  have hsuffix := matches_updateSuffix op hdrop
  have htoken : Part.ofTree map (.node .updateSuffix middle after []) =
      .ok ⟨.updateSuffix, middle, after, map.span middle.offset after.offset, .token⟩ :=
    ofTree_token middle after rfl
  have htext : Part.string ⟨.updateSuffix, middle, after, map.span middle.offset after.offset,
      .token⟩ = op.symbol := (string_eq hdrop).trans String.ofList_toList
  have hshape : (Expr.update op false value (map.span place.offset after.offset)).shape =
      (Expr.update op false target span).shape := by
    rw [Expr.shape, Expr.shape, hvalue]
  have hpostfix : Reads map .postfixExpr (.update op false target span) place after := by
    refine .of_body nofun (matches_seq hmatch (hstop.trans hsettled) (.present hsuffix)) rfl
      (ofTrees_cons hpart (ofTrees_cons htoken rfl)) ?_ hshape
    unfold assemble assembleStmt? assembleExpr?
    dsimp only
    rw [exprsOf_cons hmeaning,
      textOf?_of_behind .updateSuffix (by rw [hrule]; nofun) rfl htext]
    cases op <;> rfl
  exact hpostfix.choice rfl rfl fun hmatch =>
    .altSecond (hat.refused hsign) (.altSecond (hat.refused hawait) hmatch)

/-! ## Conditions, assignments and lists with commas -/

/-- A condition is read back. -/
theorem reads_ternary {condition consequent alternate : Expr} {start last next : Cursor}
    (hcondition : Reads map .nullishExpr condition place middle)
    (hdrop : middle.drop? (' ' :: (['?'] ++ [' '])) = some start)
    (hstart : skipLayout start = start) (hconsequent : Reads map .assignExpr consequent start last)
    (hcolon : last.drop? (' ' :: ([':'] ++ [' '])) = some next)
    (hnext : skipLayout next = next) (halternate : Reads map .assignExpr alternate next after)
    (span : Span) :
    Reads map .ternaryExpr (.ternary condition consequent alternate span) place after := by
  obtain ⟨mark, -, hmark, -, hmarkStop⟩ := operator_between rfl hdrop hstart
  obtain ⟨colon, -, hcolonText, -, hcolonStop⟩ := operator_between rfl hcolon hnext
  obtain ⟨first, _, hfirst, hfirstStop, firstPart, firstValue, hfirstPart, -, hfirstMeaning,
    hfirstValue⟩ := hcondition
  obtain ⟨second, _, hsecond, hsecondStop, secondPart, secondValue, hsecondPart, -, hsecondMeaning,
    hsecondValue⟩ := hconsequent
  obtain ⟨third, _, hthird, hthirdStop, thirdPart, thirdValue, hthirdPart, -, hthirdMeaning,
    hthirdValue⟩ := halternate
  have hbody : Matches grammar .spaced (body .ternaryExpr) place _ :=
    matches_seq hfirst hfirstStop (.present (matches_seq (.text hmark) hmarkStop
      (matches_seq hsecond hsecondStop (matches_seq (.text hcolonText) hcolonStop hthird))))
  have hshape : (Expr.ternary firstValue secondValue thirdValue
      (map.span place.offset third.offset)).shape =
      (Expr.ternary condition consequent alternate span).shape := by
    rw [Expr.shape, Expr.shape, hfirstValue, hsecondValue, hthirdValue]
  refine .of_body nofun hbody hthirdStop
    (ofTrees_cons hfirstPart (ofTrees_cons hsecondPart (ofTrees_cons hthirdPart rfl))) ?_ hshape
  unfold assemble assembleStmt? assembleExpr?
  dsimp only
  rw [exprsOf_cons hfirstMeaning, exprsOf_cons hsecondMeaning, exprsOf_cons hthirdMeaning]
  rfl

/-- An assignment is read back. -/
theorem reads_assignment {op : AssignOp} {target assigned : Expr} {start : Cursor}
    (htarget : Reads map .callExpr target place middle)
    (hdrop : middle.drop? (' ' :: (op.symbol.toList ++ [' '])) = some start)
    (hstart : skipLayout start = start) (hassigned : Reads map .assignExpr assigned start after)
    (span : Span) : Reads map .assignment (.assign op target assigned span) place after := by
  obtain ⟨stop, rest, hsymbol, hspace, hstop⟩ :=
    operator_between (by cases op <;> rfl) hdrop hstart
  have hoperator := matches_assignOp op (skipLayout_skipLayout middle) hsymbol hspace
  obtain ⟨first, _, hfirst, hfirstStop, firstPart, firstValue, hfirstPart, hrule, hfirstMeaning,
    hfirstValue⟩ := htarget
  obtain ⟨last, _, hlast, hlastStop, lastPart, lastValue, hlastPart, -, hlastMeaning,
    hlastValue⟩ := hassigned
  have htoken : Part.ofTree map (.node .assignOp (skipLayout middle) stop []) =
      .ok ⟨.assignOp, skipLayout middle, stop, _, .token⟩ := ofTree_token _ _ rfl
  have htext : Part.string ⟨.assignOp, skipLayout middle, stop,
      map.span (skipLayout middle).offset stop.offset, .token⟩ = op.symbol :=
    (string_eq hsymbol).trans String.ofList_toList
  have hbody : Matches grammar .spaced (body .assignment) place _ :=
    matches_seq hfirst hfirstStop (matches_seq hoperator hstop hlast)
  have hshape : (Expr.assign op firstValue lastValue (map.span place.offset last.offset)).shape =
      (Expr.assign op target assigned span).shape := by
    rw [Expr.shape, Expr.shape, hfirstValue, hlastValue]
  refine .of_body nofun hbody hlastStop
    (ofTrees_cons hfirstPart (ofTrees_cons htoken (ofTrees_cons hlastPart rfl))) ?_ hshape
  unfold assemble assembleStmt? assembleExpr?
  dsimp only
  rw [textOf?_of_behind .assignOp (by rw [hrule]; nofun) rfl htext, exprsOf_cons hfirstMeaning,
    exprsOf_token rfl, exprsOf_cons hlastMeaning]
  change (Except.ok (Expr.assign (assignOpOf op.symbol) _ _ _)).map Meaning.expr = _
  rw [assignOpOf_symbol]
  rfl

/-- A list with commas is read back. -/
theorem reads_sequence {first second : Expr} {others : List Expr}
    (hes : ∀ e ∈ first :: second :: others, e.IsGrouped ∧ Readable map e)
    (hdrop : place.drop? (Expr.itemized (first :: second :: others)) = some after)
    (hend : Follows brackets after) (span : Span) :
    Reads map .expression (.sequence (first :: second :: others) span) place after := by
  obtain ⟨stop, trees, parts, hmatch, hstop, hparts, hvalues⟩ :=
    matches_items (fun e he => ⟨(hes e he).1, (hes e he).2.itemReads⟩) hdrop hend
  have hshape : (Expr.sequence (exprsOf parts) (map.span place.offset stop.offset)).shape =
      (Expr.sequence (first :: second :: others) span).shape := by
    rw [Expr.shape, Expr.shape, Expr.shapes_eq_map, Expr.shapes_eq_map, hvalues]
  refine .of_body nofun hmatch hstop hparts ?_ hshape
  unfold assemble assembleStmt? assembleExpr?
  dsimp only
  have hlength : (exprsOf parts).length = others.length + 2 := by
    simpa using congrArg List.length hvalues
  match exprsOf parts, hlength with
  | [], h => contradiction
  | [_], h => simp at h
  | _ :: _ :: _, _ => rfl

end EventLoop.Script
