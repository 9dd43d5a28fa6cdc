import EventLoop.Proofs.Script.Legible
import EventLoop.Proofs.Script.Readable

/-!
# Rendering an expression and reading it back

A text that is read to its end as one statement is a script of this statement (`parse_statement`).
The text of a grouped expression is a script of one statement, which is the expression
(`readsBack_of_isGrouped`).  Formulas are grouped, so that this holds of all of them
(`parse_render`).
-/

namespace EventLoop.Script

open Peg

variable {e : Expr} {place after : Cursor}

/-- The statements that are tried before that of an expression, labels apart. -/
def otherStatements : List Rule :=
  [.block, .emptyStmt, .functionDecl, .declareStmt, .ifStmt, .switchStmt, .classDecl, .forLoopStmt,
   .forStmt, .whileStmt, .doWhileStmt, .returnStmt, .throwStmt, .breakStmt, .continueStmt, .tryStmt]

/-- A statement that starts like an expression and has no label is that of an expression. -/
theorem matches_statement {result : Match Rule} (hstart : e.StartsAt place)
    (hlabel : Derives grammar .spaced (.rule .labeledStmt) place none)
    (h : Matches grammar .spaced (.rule .exprStmt) place result) :
    Matches grammar .spaced (.rule .statement) place
      ⟨result.stop, [.node .statement place result.stop result.trees]⟩ := by
  have hothers : ∀ r ∈ otherStatements, ∀ start ∈ operandStarts ++ signStarts,
      start.refuses (.rule r) = true := by
    decide
  have hbefore : ∀ f ∈ otherStatements.map Peg.Expr.rule ++ [.rule .labeledStmt],
      Derives grammar .spaced f place none := by
    intro f hf
    rcases List.mem_append.1 hf with hother | hlast
    · obtain ⟨r, hr, rfl⟩ := List.mem_map.1 hother
      exact hstart.refused (hothers r hr)
    · obtain rfl := List.mem_singleton.1 hlast
      exact hlabel
  have hchoice : Matches grammar .spaced (body .statement) place result := .oneOf hbefore h
  exact matches_rule .spaced .statement nofun nofun hchoice

/-- Among parts of one statement is this statement. -/
theorem stmtsOf_cons {part : Part} {value : Stmt} (h : part.meaning = .stmt value)
    (parts : List Part) : stmtsOf (part :: parts) = value :: stmtsOf parts := by
  unfold stmtsOf
  rw [List.filterMap_cons_some]
  rw [h]

/-- A text that is read to its end as one statement is a script of this statement. -/
theorem parse_statement {source : String} {P : Stmt → Prop}
    (hstart : skipLayout (.start source.toList) = .start source.toList) (hend : after.rest = [])
    (h : PartRead (.ofText source.toList) (.rule .statement)
      (fun part => ∃ stmt, part.meaning = .stmt stmt ∧ P stmt) (.start source.toList) after) :
    ∃ stmt range, parse source = .ok ⟨[stmt], range⟩ ∧ P stmt := by
  obtain ⟨offset, rest⟩ := after
  obtain rfl : rest = [] := hend
  obtain ⟨stop, tree, part, hmatch, hstop, hpart, stmt, hmeaning, hstmt⟩ := h
  have hnothing : Start.nothing.At ⟨offset, []⟩ := rfl
  replace hstop : skipLayout stop = ⟨offset, []⟩ := hstop.trans hnothing.settled
  -- at the end of the text not even raw text is a statement
  have hmore : Derives grammar .spaced (.rule .statement) (skipLayout stop) none := by
    rw [hstop]
    exact hnothing.refused (by decide)
  have hinput : Matches grammar .spaced (.rule .endOfInput) ⟨offset, []⟩
      ⟨⟨offset, []⟩, [.node .endOfInput ⟨offset, []⟩ ⟨offset, []⟩ []]⟩ :=
    matches_rule .spaced .endOfInput nofun nofun (.endOfText _ offset)
  have hbody : Matches grammar .spaced (body .program) (.start source.toList) _ :=
    matches_seq (.text rfl) hstart (matches_seq (.last hmatch hmore) hstop hinput)
  have hprogram := matches_rule .spaced .program nofun nofun hbody
  have hinputPart : Part.ofTree (.ofText source.toList)
      (.node .endOfInput ⟨offset, []⟩ ⟨offset, []⟩ []) = .ok ⟨.endOfInput, _, _, _, .token⟩ :=
    ofTree_node rfl rfl
  have hderives := derives_match source.toList
  cases houtcome : match? source.toList with
  | failure attempts =>
      rw [houtcome] at hderives
      exact absurd hderives hprogram.not_refused
  | success attempts last trees =>
      rw [houtcome] at hderives
      obtain ⟨rfl, rfl⟩ := Match.mk.inj (hprogram.unique (hderives.matches _ rfl))
      have hparse := parse_eq houtcome (ofTrees_cons hpart (ofTrees_cons hinputPart rfl))
      rw [stmtsOf_cons hmeaning] at hparse
      exact ⟨stmt, _, hparse, hstmt⟩

/-- An expression at the end of a text is read back as a statement. -/
theorem reads_statement {map : LineMap} (h : Legible map e)
    (hdrop : place.drop? e.render.toList = some after) (hend : after.rest = []) :
    PartRead map (.rule .statement) (fun part => ∃ stmt, part.meaning = .stmt stmt ∧
      ∃ value span, stmt = .exprStmt value span ∧ value.shape = e.shape) place after := by
  obtain ⟨offset, rest⟩ := after
  obtain rfl : rest = [] := hend
  have hfollows : Follows [.nothing] ⟨offset, []⟩ := ⟨rfl, .nothing, List.mem_cons_self, rfl⟩
  have hexpression : Reads map .expression e place ⟨offset, []⟩ :=
    h.alone _ _ hdrop (hfollows.mono (by decide))
  obtain ⟨stop, children, hmatch, hstop, part, value, hpart, -, hmeaning, hvalue⟩ := hexpression
  have hnone : Matches grammar .spaced (.optional ";") (⟨offset, []⟩ : Cursor) ⟨⟨offset, []⟩, []⟩ :=
    .absent (hfollows.refused (by decide))
  have hbody := matches_rule .spaced .exprStmt nofun nofun (matches_seq hmatch hstop hnone)
  have hstatement := matches_statement (h.grouped.start hdrop rfl)
    (h.unlabeled hdrop (hfollows.mono (by decide))) hbody
  have hinner : Part.ofTree map (.node .exprStmt place ⟨offset, []⟩
      [.node .expression place stop children]) = .ok ⟨.exprStmt, place, ⟨offset, []⟩,
        map.span place.offset offset, .stmt (.exprStmt value (map.span place.offset offset))⟩ := by
    refine ofTree_node (ofTrees_cons hpart rfl) ?_
    unfold assemble assembleStmt?
    dsimp only
    rw [exprsOf_cons hmeaning]
    rfl
  exact ⟨_, _, _, hstatement, rfl, ofTree_node (ofTrees_cons hinner rfl) rfl, _, rfl, value, _, rfl,
    hvalue⟩

/-- The text of an expression is a script of one statement, which is the expression but for its
spans. -/
def Expr.ReadsBack (e : Expr) : Prop :=
  ∃ value span whole, parse e.render = .ok ⟨[.exprStmt value span], whole⟩ ∧
    value.shape = e.shape

/-- Grouped expressions read back. -/
theorem readsBack_of_isGrouped {e : Expr} (h : e.IsGrouped) : e.ReadsBack := by
  have hdrop : (Cursor.start e.render.toList).drop? e.render.toList = some ⟨_, []⟩ :=
    Cursor.drop?_eq_some_iff.2 ⟨(List.append_nil _).symm, rfl⟩
  obtain ⟨stmt, range, hparse, value, span, rfl, hvalue⟩ :=
    parse_statement (h.start hdrop rfl).settled rfl (reads_statement h.legible hdrop rfl)
  exact ⟨value, span, range, hparse, hvalue⟩

/-- **The text of a formula is a script of one statement, which is the formula** but for its
spans.  So the parentheses of rendered formulas and the levels of the grammar agree, however
formulas are nested. -/
theorem parse_render {e : Expr} (h : e.IsFormula) :
    ∃ value span whole, parse e.render = .ok ⟨[.exprStmt value span], whole⟩ ∧
      value.bare = e.bare := by
  obtain ⟨value, span, whole, hparse, hvalue⟩ := readsBack_of_isGrouped h.grouped
  exact ⟨value, span, whole, hparse, h.bare_eq hvalue⟩

/-- A sum in parentheses and a power behind a sign, beside an access to the result of a call. -/
theorem parse_render_nested :
    let sum := Expr.binary .add (.ident "a" .zero) (.ident "b" .zero) .zero
    let power := Expr.binary .pow (.unary .neg (.ident "c" .zero) .zero) (.null .zero) .zero
    let callee := Expr.member (.await (.ident "f" .zero) .zero) "in" .zero true .zero
    let call := Expr.call callee [.string "it's" .zero, .bool true .zero] .zero
    let e := Expr.binary .nullish (.binary .mul sum power .zero)
      (.index call (.list [] .zero) .zero) .zero
    e.IsFormula ∧ e.render = "(a + b) * -c ** null ?? (await f)?.in('it\\'s', true)[[]]" ∧
      ∃ value span whole, parse e.render = .ok ⟨[.exprStmt value span], whole⟩ ∧
        value.bare = e.bare := by
  intro sum power callee call e
  have hname {name : String} (h : IsIdentifier name) : (Expr.ident name .zero).IsFormula :=
    .ident h .zero
  have hsum : sum.IsFormula := .binary .add (hname (by decide)) (hname (by decide)) .zero
  have hpower : power.IsFormula :=
    .binary .pow (.unary .neg (hname (by decide)) .zero) (.null .zero) .zero
  have hcallee : callee.IsFormula :=
    .member (.await (hname (by decide)) .zero) (by decide) .zero true .zero
  have hline (c : Char) (hc : c ∈ "it's".toList) : isLineEnd c = false := by
    have hall : ("it's".toList.all fun c => !isLineEnd c) = true := by decide
    simpa using List.all_eq_true.1 hall c hc
  have hcall : call.IsFormula := by
    refine .call hcallee (List.forall_mem_cons.2 ⟨.string hline .zero, ?_⟩) .zero
    exact List.forall_mem_singleton.2 (.bool true .zero)
  have hlist : (Expr.list [] .zero).IsFormula := .list (List.forall_mem_nil _) .zero
  have he : e.IsFormula :=
    .binary .nullish (.binary .mul hsum hpower .zero) (.index hcall hlist .zero) .zero
  exact ⟨he, by cbv, parse_render he⟩

end EventLoop.Script
