import EventLoop.Proofs.Script.Assembly
import EventLoop.Proofs.Script.Border
import EventLoop.Proofs.Script.Token

/-!
# Reading expressions back

`Reads` says that a rule reads an expression between two places, up to spans and to the
layout behind it.  The rules for expressions stand above each other, each for what binds as
tightly as its operators: a rule reads what the rule below it reads, if none of its own
operators follows (`Reads.descend`), and it reads operands with operators between them, one
operator after the other (`Chain`).
-/

namespace EventLoop.Script

open Peg

variable (map : LineMap)

/-- A tree means an expression, up to spans. -/
def Means (tree : Peg.Tree Rule) (e : Expr) : Prop :=
  ∃ part value, Part.ofTree map tree = .ok part ∧ part.rule = tree.rule ∧
    part.meaning = .expr value ∧ value.shape = e.shape

/-- A rule reads an expression from one place to another, perhaps with layout behind. -/
def Reads (r : Rule) (e : Expr) (place after : Cursor) : Prop :=
  ∃ stop children, Matches grammar .spaced (.rule r) place ⟨stop, [.node r place stop children]⟩ ∧
    skipLayout stop = skipLayout after ∧ Means map (.node r place stop children) e

variable {map} {e : Expr} {place after : Cursor}

/-! ## Trees -/

theorem ofTree_node {r : Rule} {start stop : Cursor} {children : List (Peg.Tree Rule)}
    {parts : List Part} {meaning : Meaning} (hparts : Part.ofTrees map children = .ok parts)
    (hmeaning : assemble r ⟨r, start, stop, map.span start.offset stop.offset, .token⟩ parts =
      .ok meaning) :
    Part.ofTree map (.node r start stop children) =
      .ok ⟨r, start, stop, map.span start.offset stop.offset, meaning⟩ := by
  change (do
    let parts ← Part.ofTrees map children
    let whole : Part := ⟨r, start, stop, map.span start.offset stop.offset, .token⟩
    return { whole with meaning := ← assemble r whole parts }) = _
  rw [hparts]
  dsimp only [bind, Except.bind]
  rw [hmeaning]
  rfl

theorem ofTrees_cons {tree : Peg.Tree Rule} {trees : List (Peg.Tree Rule)} {part : Part}
    {parts : List Part} (hpart : Part.ofTree map tree = .ok part)
    (hparts : Part.ofTrees map trees = .ok parts) :
    Part.ofTrees map (tree :: trees) = .ok (part :: parts) := by
  change (do
    let part ← Part.ofTree map tree
    let parts ← Part.ofTrees map trees
    return part :: parts) = _
  rw [hpart, hparts]
  rfl

theorem ofTrees_append {trees others : List (Peg.Tree Rule)} {parts otherParts : List Part}
    (hparts : Part.ofTrees map trees = .ok parts)
    (hothers : Part.ofTrees map others = .ok otherParts) :
    Part.ofTrees map (trees ++ others) = .ok (parts ++ otherParts) := by
  induction trees generalizing parts with
  | nil =>
      obtain rfl := Except.ok.inj hparts
      exact hothers
  | cons tree trees ih =>
      obtain ⟨part, hpart, hparts⟩ := bind_ok hparts
      obtain ⟨rest, hrest, hparts⟩ := bind_ok hparts
      obtain rfl := Except.ok.inj hparts
      exact ofTrees_cons hpart (ih hrest)

/-- A rule reads an expression if its body matches parts with the meaning of the expression. -/
theorem Reads.of_body {r : Rule} (hkind : kind r ≠ .hidden) {result : Match Rule}
    (h : Matches grammar ((kind r).modeIn .spaced) (body r) place result)
    (hstop : skipLayout result.stop = skipLayout after) {parts : List Part}
    (hparts : Part.ofTrees map result.trees = .ok parts) {value : Expr}
    (hmeaning : assemble r ⟨r, place, result.stop, map.span place.offset result.stop.offset, .token⟩
      parts = .ok (.expr value))
    (hvalue : value.shape = e.shape) : Reads map r e place after :=
  ⟨_, _, matches_rule .spaced r nofun hkind h, hstop, _, value, ofTree_node hparts hmeaning, rfl,
    rfl, hvalue⟩

/-! ## Rules that stand for their only part -/

/-- Rules that stand for their only part. -/
def isCover : Rule → Rule → Bool
  | .expression, .assignExpr | .assignExpr, .assignment | .assignExpr, .ternaryExpr
  | .ternaryExpr, .nullishExpr
  | .nullishExpr, .logicalOrExpr | .logicalOrExpr, .logicalAndExpr
  | .logicalAndExpr, .equalityExpr | .equalityExpr, .comparisonExpr
  | .comparisonExpr, .additiveExpr | .additiveExpr, .multiplicativeExpr
  | .multiplicativeExpr, .exponentExpr | .exponentExpr, .unaryExpr | .unaryExpr, .awaitExpr
  | .unaryExpr, .postfixExpr | .postfixExpr, .callExpr | .callExpr, .primary | .primary, .literal
  | .primary, .arrayLit | .primary, .parenExpr | .parenExpr, .expression | .literal, .string
  | .literal, .boolean | .literal, .nullLit => true
  | _, _ => false

theorem assemble_cover {r child : Rule} (h : isCover r child = true) (whole : Part) {part : Part}
    {value : Expr} (hrule : part.rule = child) (hmeaning : part.meaning = .expr value) :
    assemble r whole [part] = .ok (.expr value) := by
  obtain ⟨rule, start, stop, span, meaning⟩ := part
  obtain rfl : rule = child := hrule
  obtain rfl : meaning = .expr value := hmeaning
  unfold isCover at h
  split at h <;> first | rfl | contradiction

/-- A rule reads what its only part reads. -/
theorem Reads.cover {r child : Rule} (h : Reads map child e place after)
    (hcover : isCover r child = true) (hkind : kind r = .plain)
    (hbody : ∀ {stop : Cursor} {tree : Peg.Tree Rule}, skipLayout stop = skipLayout after →
      Matches grammar .spaced (.rule child) place ⟨stop, [tree]⟩ →
      ∃ last, Matches grammar .spaced (body r) place ⟨last, [tree]⟩ ∧
        skipLayout last = skipLayout after) :
    Reads map r e place after := by
  obtain ⟨stop, children, hmatch, hstop, part, value, hpart, hrule, hmeaning, hvalue⟩ := h
  obtain ⟨last, hlast, hskip⟩ := hbody hstop hmatch
  have hmode : (kind r).modeIn .spaced = .spaced := by rw [hkind]; rfl
  exact .of_body (by rw [hkind]; nofun) (by rw [hmode]; exact hlast) hskip (ofTrees_cons hpart rfl)
    (assemble_cover hcover _ hrule hmeaning) hvalue

/-- A rule reads what one of its alternatives reads. -/
theorem Reads.choice {r child : Rule} (h : Reads map child e place after)
    (hcover : isCover r child = true) (hkind : kind r = .plain)
    (hbody : ∀ {result : Match Rule}, Matches grammar .spaced (.rule child) place result →
      Matches grammar .spaced (body r) place result) : Reads map r e place after :=
  h.cover hcover hkind fun hstop hmatch => ⟨_, hbody hmatch, hstop⟩

/-- A rule reads what its first part reads, if nothing else follows that it reads. -/
theorem Reads.followed {r child : Rule} {f : Peg.Expr Rule} (h : Reads map child e place after)
    (hcover : isCover r child = true) (hkind : kind r = .plain)
    (hbody : body r = .seq (.rule child) f)
    (hf : Matches grammar .spaced f (skipLayout after) ⟨skipLayout after, []⟩) :
    Reads map r e place after := by
  refine h.cover hcover hkind fun {stop tree} hstop hmatch => ⟨skipLayout after, ?_, ?_⟩
  · rw [hbody]
    exact matches_seq hmatch hstop hf
  · exact skipLayout_skipLayout after

/-! ## Operands and operators -/

/-- The rule for expressions whose operators bind at least as tightly as a bound. -/
def rung : Nat → Rule
  | 1 => .nullishExpr
  | 2 => .logicalOrExpr
  | 3 => .logicalAndExpr
  | 4 => .equalityExpr
  | 5 => .comparisonExpr
  | 6 => .additiveExpr
  | 7 => .multiplicativeExpr
  | 8 => .exponentExpr
  | _ => .unaryExpr

/-- A rule reads what the rule below it reads, if none of its operators follows. -/
theorem Reads.descend {bound : Nat} (hpos : 0 < bound) (hbound : bound ≤ 8)
    (h : Reads map (rung (bound + 1)) e place after) (hfollows : Follows (ends bound) after) :
    Reads map (rung bound) e place after := by
  obtain rfl | rfl | rfl | rfl | rfl | rfl | rfl | rfl : bound = 1 ∨ bound = 2 ∨ bound = 3 ∨
      bound = 4 ∨ bound = 5 ∨ bound = 6 ∨ bound = 7 ∨ bound = 8 := by omega
  all_goals
    first
      | exact h.followed rfl rfl rfl (.noMore (hfollows.refused (by decide)))
      | exact h.followed rfl rfl rfl (.absent (hfollows.refused (by decide)))

/-! ## Parts that group to the left -/

/-- How an expression groups with what stands behind it. -/
structure Grouping where
  first : Rule
  round : Peg.Expr Rule
  /-- An expression and the parts behind it make up a whole. -/
  folds : Expr → List Part → Expr → Prop

variable (map) in
/-- An expression is read as one with parts behind it, whatever other parts are read behind
these. -/
def Chain (grouping : Grouping) (e : Expr) (place after : Cursor) : Prop :=
  ∀ (stop : Cursor) (trees : List (Peg.Tree Rule)) (parts : List Part),
    Matches grammar .spaced (.many grouping.round) (skipLayout after) ⟨stop, trees⟩ →
    Part.ofTrees map trees = .ok parts →
    ∃ last row head behind left value,
      Matches grammar .spaced (.seq (.rule grouping.first) (.many grouping.round)) place
        ⟨last, row⟩ ∧
      skipLayout last = skipLayout stop ∧ Part.ofTrees map row = .ok (head :: behind) ∧
      head.meaning = .expr left ∧ value.shape = e.shape ∧
      ∀ whole, grouping.folds value parts whole → grouping.folds left behind whole

namespace Chain

variable {grouping : Grouping}

theorem of_reads (h : Reads map grouping.first e place after) : Chain map grouping e place after := by
  intro stop trees parts hmany hparts
  obtain ⟨last, children, hmatch, hstop, head, value, hhead, -, hmeaning, hvalue⟩ := h
  exact ⟨_, _, head, parts, value, value, matches_seq hmatch hstop hmany, rfl,
    ofTrees_cons hhead hparts, hmeaning, hvalue, fun _ h => h⟩

/-- One more part is read behind an expression. -/
theorem step {left : Expr} {middle start : Cursor} (h : Chain map grouping left place middle)
    (hstart : skipLayout middle = start) {result : Match Rule}
    (hround : Matches grammar .spaced grouping.round start result)
    (hstop : skipLayout result.stop = skipLayout after) {parts : List Part}
    (hparts : Part.ofTrees map result.trees = .ok parts)
    (hfolds : ∀ value : Expr, value.shape = left.shape → ∃ next : Expr, next.shape = e.shape ∧
      ∀ others whole, grouping.folds next others whole →
        grouping.folds value (parts ++ others) whole) :
    Chain map grouping e place after := by
  intro stop trees others hmany hothers
  -- the part becomes the first of those that are read behind the expression at its left
  subst hstart
  have hbehind : Matches grammar .spaced (.many grouping.round) (skipLayout result.stop)
      ⟨stop, trees⟩ := by
    rwa [hstop]
  obtain ⟨last, hrounds, hlast⟩ := hround.many_cons (skip_skip .spaced) hbehind
  obtain ⟨end_, row, head, behind, first, value, hmatch, hend, hrow, hhead, hvalue, hwhole⟩ :=
    h _ _ _ hrounds (ofTrees_append hparts hothers)
  obtain ⟨next, hnext, hnextFolds⟩ := hfolds value hvalue
  exact ⟨end_, row, head, behind, first, next, hmatch, hend.trans hlast, hrow, hhead, hnext,
    fun whole hfold => hwhole whole (hnextFolds others whole hfold)⟩

/-- Where no further part follows, the whole is read. -/
theorem reads {r : Rule} (h : Chain map grouping e place after) (hkind : kind r = .plain)
    (hbody : body r = .seq (.rule grouping.first) (.many grouping.round))
    (hend : Derives grammar .spaced grouping.round (skipLayout after) none)
    (hnil : ∀ value, grouping.folds value [] value)
    (hassemble : ∀ (whole head : Part) (behind : List Part) (left value : Expr),
      head.meaning = .expr left → grouping.folds left behind value →
      assemble r whole (head :: behind) = .ok (.expr value)) :
    Reads map r e place after := by
  obtain ⟨last, row, head, behind, left, value, hmatch, hlast, hrow, hhead, hvalue, hwhole⟩ :=
    h _ _ _ (.noMore hend) rfl
  have hmode : (kind r).modeIn .spaced = .spaced := by rw [hkind]; rfl
  refine .of_body (by rw [hkind]; nofun) (by rw [hmode, hbody]; exact hmatch)
    (hlast.trans (skipLayout_skipLayout after)) hrow
    (hassemble _ head behind left value hhead (hwhole value (hnil value))) hvalue

end Chain

/-- Operands with operators of a precedence between them. -/
def operandsAt (bound : Nat) : Grouping where
  first := rung (bound + 1)
  round := .seq (oneOf ((operatorsAt bound).map .rule)) (.rule (rung (bound + 1)))
  folds left parts whole := ∀ span, foldOperands span left parts = .ok whole

/-- Accesses and calls behind an expression. -/
def trailers : Grouping where
  first := .primary
  round := .rule .trailer
  folds left parts whole := foldTrailers left parts = whole

/-- An operator between spaces stands between two places. -/
theorem operator_between {symbol : List Char} (hsolid : isSolid (symbol ++ [' ']) = true)
    {middle start : Cursor} (hdrop : middle.drop? (' ' :: (symbol ++ [' '])) = some start)
    (hstart : skipLayout start = start) :
    ∃ stop rest, (skipLayout middle).drop? symbol = some stop ∧ stop.rest = ' ' :: rest ∧
      skipLayout stop = start := by
  obtain ⟨offset, read, rfl, hbehind⟩ := Cursor.drop?_cons_eq_some hdrop
  have hat := at_operator hsolid hbehind
  obtain ⟨stop, hsymbol, hspace⟩ := Cursor.drop?_append_eq_some hbehind
  obtain ⟨stopOffset, rest, rfl, hlast⟩ := Cursor.drop?_cons_eq_some hspace
  obtain rfl := Option.some.inj hlast
  refine ⟨⟨stopOffset, ' ' :: rest⟩, rest, ?_, rfl, ?_⟩
  · rw [skipLayout_space]
    exact hat.settled.symm ▸ hsymbol
  · rw [skipLayout_space]
    exact hstart

/-- An operand behind an operator. -/
theorem Chain.operand {op : BinaryOp} (hop : op ≠ .pow) {left right : Expr} {middle start : Cursor}
    (h : Chain map (operandsAt op.precedence) left place middle)
    (hdrop : middle.drop? (' ' :: (op.symbol.toList ++ [' '])) = some start)
    (hstart : skipLayout start = start)
    (hright : Reads map (rung (op.precedence + 1)) right start after) (span : Span) :
    Chain map (operandsAt op.precedence) (.binary op left right span) place after := by
  obtain ⟨stop, rest, hsymbol, hspace, hstop⟩ := operator_between (by cases op <;> decide) hdrop hstart
  obtain ⟨last, children, hmatch, hlast, part, value, hpart, -, hmeaning, hvalue⟩ := hright
  have hoperator := matches_operators op hop (skipLayout_skipLayout middle) hsymbol hspace
  have htoken : Part.ofTree map (.node op.rule (skipLayout middle) stop []) =
      .ok ⟨op.rule, _, _, _, .token⟩ := ofTree_node rfl (by cases op <;> rfl)
  refine h.step rfl (matches_seq hoperator hstop hmatch) hlast
    (ofTrees_cons htoken (ofTrees_cons hpart rfl)) fun first hfirst =>
      ⟨.binary op first value (first.span.merge value.span), ?_, ?_⟩
  · rw [Expr.shape, Expr.shape, hfirst, hvalue]
  · intro others whole hfolds span
    rw [List.cons_append, List.cons_append, List.nil_append, foldOperands, binaryOpOf?_rule, hmeaning]
    exact hfolds span

end EventLoop.Script
