import EventLoop.Proofs.Peg.Count
import EventLoop.Proofs.Script.Item
import EventLoop.Proofs.Script.Parentheses
import EventLoop.Proofs.Script.Reading

/-!
# The parentheses that are written

What a rule for expressions reads without parentheses around it is of a grade at least (`gradeOf`).
So where the grammar has an operand that binds too loosely for its operator, the operand was written
in parentheses, and a script has all opening parentheses that its expressions need
(`parens_le_count`).

The parentheses are counted from the inside out.  A part pays for its meaning (`Part.Pays`) if its
text has the parentheses that the meaning needs.  If the parts of a tree do, then so does the tree
(`Counted.pays`): the parentheses that its meaning needs are those that its parts need, and those
that its rule spells out.
-/

namespace EventLoop.Script

open Peg

/-- The least grade of what a rule for expressions reads without parentheses around it. -/
def gradeOf : Rule → Nat
  | .expression | .templateSub => 0
  | .assignExpr | .assignment | .arrowFunction | .ternaryExpr => 1
  | .nullishExpr => 2
  | .logicalOrExpr => 3
  | .logicalAndExpr => 4
  | .equalityExpr => 5
  | .comparisonExpr => 6
  | .additiveExpr => 7
  | .multiplicativeExpr => 8
  | .exponentExpr => 9
  | .unaryExpr | .awaitExpr | .postfixExpr => 10
  | _ => 11

/-- Whether all expressions from which a recorded rule is put together are of a grade. -/
def reaches (rule : Rule) (demanded : Nat) : Bool :=
  (kind rule ≠ .token ∧ kind rule ≠ .hidden) &&
    (body rule).mentions.all fun r => !ofKind .expr r || demanded ≤ gradeOf r

/-- The rules for lists of expressions, accesses and calls. -/
def isListed (rule : Rule) : Bool :=
  ofKind .exprs rule || ofKind .trailer rule

/-- How many opening parentheses it takes to write what a tree of a rule stands for. -/
def Meaning.parens (rule : Rule) : Meaning → Nat
  | .expr e => e.parensAt (gradeOf rule)
  | .exprs es => Expr.parensAll es
  | .args es => 1 + Expr.parensAll es
  | .index e | .stmt (.exprStmt e _) => e.parens
  | _ => 0

/-- How many opening parentheses stand in the text of a part. -/
def Part.parens (part : Part) : Nat :=
  part.start.count '(' - part.stop.count '('

/-- The text of a part has the opening parentheses that its meaning needs. -/
def Part.Pays (part : Part) : Prop :=
  part.meaning.parens part.rule ≤ part.parens

/-- How many opening parentheses stand in the texts of parts. -/
def parensOf (parts : List Part) : Nat :=
  (parts.map Part.parens).sum

variable {text : List Char}

namespace Part.Pays

variable {part : Part}

theorem expr (h : part.Pays) {e : Expr} (hmeaning : part.meaning = .expr e) :
    e.parensAt (gradeOf part.rule) ≤ part.parens := by
  rwa [Pays, hmeaning] at h

theorem exprs (h : part.Pays) {es : List Expr} (hmeaning : part.meaning = .exprs es) :
    Expr.parensAll es ≤ part.parens := by
  rwa [Pays, hmeaning] at h

theorem args (h : part.Pays) {es : List Expr} (hmeaning : part.meaning = .args es) :
    1 + Expr.parensAll es ≤ part.parens := by
  rwa [Pays, hmeaning] at h

theorem index (h : part.Pays) {e : Expr} (hmeaning : part.meaning = .index e) :
    e.parens ≤ part.parens := by
  rwa [Pays, hmeaning] at h

end Part.Pays

/-! ## Expressions among parts -/

section Choosing

variable {parts : List Part} {demanded : Nat}

theorem parensOf_cons (part : Part) (rest : List Part) :
    parensOf (part :: rest) = part.parens + parensOf rest := by
  rw [parensOf, List.map_cons, List.sum_cons]
  rfl

theorem parensOf_tail_le (parts : List Part) : parensOf parts.tail ≤ parensOf parts := by
  cases parts with
  | nil => exact Nat.le_refl _
  | cons part rest =>
      rw [List.tail_cons, parensOf_cons]
      exact Nat.le_add_left _ _

theorem le_parensOf {part : Part} (h : part ∈ parts) : part.parens ≤ parensOf parts :=
  List.le_sum_of_mem (List.mem_map_of_mem h)

/-- The expressions among some parts. -/
theorem parens_exprsOf_le
    (h : ∀ part ∈ parts, ∀ e, part.meaning = .expr e → e.parensAt demanded ≤ part.parens) :
    ((exprsOf parts).map fun e => e.parensAt demanded).sum ≤ parensOf parts := by
  induction parts with
  | nil => exact Nat.le_refl 0
  | cons part rest ih =>
      obtain ⟨hpart, hrest⟩ := List.forall_mem_cons.1 h
      rw [parensOf_cons]
      cases hmeaning : part.meaning with
      | expr e =>
          rw [exprsOf_cons hmeaning, List.map_cons, List.sum_cons]
          exact Nat.add_le_add (hpart e hmeaning) (ih hrest)
      | _ =>
          rw [exprsOf, List.filterMap_cons_none (by rw [hmeaning])]
          exact Nat.le_trans (ih hrest) (Nat.le_add_left _ _)

/-- The arguments among some parts. -/
theorem parens_argsOf_le (h : ∀ part ∈ parts, part.Pays) :
    Expr.parensAll (argsOf parts) ≤ parensOf parts := by
  induction parts with
  | nil => exact Nat.le_refl 0
  | cons part rest ih =>
      obtain ⟨hpart, hrest⟩ := List.forall_mem_cons.1 h
      have hargs : Expr.parensAll (argsOf [part]) ≤ part.parens := by
        cases hmeaning : part.meaning with
        | exprs es =>
            simpa only [argsOf, List.flatMap_singleton, hmeaning] using hpart.exprs hmeaning
        | args es =>
            have hes := hpart.args hmeaning
            simp only [argsOf, List.flatMap_singleton, hmeaning]
            omega
        | _ => simp [argsOf, hmeaning, Expr.parensAll]
      have happend : argsOf (part :: rest) = argsOf [part] ++ argsOf rest := by
        simp [argsOf]
      rw [happend, Expr.parensAll, List.map_append, List.sum_append, parensOf_cons]
      exact Nat.add_le_add hargs (ih hrest)

/-- A statement among some parts. -/
theorem parens_stmtsOf_le (h : ∀ part ∈ parts, part.Pays) {stmt : Stmt}
    (hstmt : stmt ∈ stmtsOf parts) (rule : Rule) : (Meaning.stmt stmt).parens rule ≤ parensOf parts := by
  obtain ⟨part, hpart, hmeaning⟩ := List.mem_filterMap.1 hstmt
  have hpays := Nat.le_trans (h part hpart) (le_parensOf hpart)
  split at hmeaning
  · rename_i value heq
    obtain rfl := Option.some.inj hmeaning
    rw [heq] at hpays
    cases value <;> exact hpays
  · contradiction

end Choosing

/-! ## Operators and trailers -/

/-- What operators that group to the left demand of their operands. -/
theorem BinaryOp.demand_of_ne_pow {op : BinaryOp} (h : op ≠ .pow) :
    op.demand false = op.precedence + 1 ∧ op.demand true = op.precedence + 2 := by
  simp [demand, h]

/-- Operands behind a left operand, with operators of one precedence that group to the left. -/
theorem parens_foldOperands {span : Span} (tail : List Part) {left e : Expr} {bound written : Nat}
    (hleft : left.parensAt bound ≤ written)
    (hoperators : ∀ part ∈ tail, ∀ op, binaryOpOf? part.rule = some op →
      bound = op.precedence + 1 ∧ op ≠ .pow)
    (hoperands : ∀ part ∈ tail, ∀ e, part.meaning = .expr e → e.parensAt (bound + 1) ≤ part.parens)
    (he : foldOperands span left tail = .ok e) :
    e.parensAt bound ≤ written + parensOf tail := by
  fun_induction foldOperands span left tail generalizing written with
  | case1 left =>
      obtain rfl := Except.ok.inj he
      exact hleft
  | case2 left operator operand rest op right hmeaning hop ih =>
      obtain ⟨hoperator, hoperators⟩ := List.forall_mem_cons.1 hoperators
      obtain ⟨-, hoperators⟩ := List.forall_mem_cons.1 hoperators
      obtain ⟨-, hoperands⟩ := List.forall_mem_cons.1 hoperands
      obtain ⟨hoperand, hoperands⟩ := List.forall_mem_cons.1 hoperands
      obtain ⟨rfl, hpow⟩ := hoperator op hop
      have hright : right.parensAt (op.precedence + 2) ≤ operand.parens := hoperand right hmeaning
      have hgrade : op.precedence + 1 ≤
          (Expr.binary op left right (left.span.merge right.span)).grade := Nat.le_refl _
      obtain ⟨hdemand, hdemandRight⟩ := BinaryOp.demand_of_ne_pow hpow
      have hbinary : (Expr.binary op left right (left.span.merge right.span)).parensAt
          (op.precedence + 1) ≤ written + operator.parens + operand.parens := by
        rw [Expr.parensAt_of_le hgrade, Expr.parens_binary, hdemand, hdemandRight]
        omega
      rw [parensOf_cons, parensOf_cons, ← Nat.add_assoc, ← Nat.add_assoc]
      exact ih hbinary hoperators hoperands he
  | case3 => contradiction
  | case4 => contradiction

/-- Accesses and calls behind an expression. -/
theorem parens_foldTrailers (tail : List Part) {e : Expr} {written : Nat}
    (he : e.parensAt 11 ≤ written) (htail : ∀ part ∈ tail, part.Pays) :
    (foldTrailers e tail).parensAt 11 ≤ written + parensOf tail := by
  induction tail generalizing e written with
  | nil => exact he
  | cons part rest ih =>
      obtain ⟨hpart, htail⟩ := List.forall_mem_cons.1 htail
      rw [foldTrailers, parensOf_cons, ← Nat.add_assoc]
      refine ih ?_ htail
      split
      · rename_i values heq
        have hvalues := hpart.args heq
        rw [Expr.parensAt_of_le (Nat.le_refl 11), Expr.parens_call]
        omega
      · rw [Expr.parensAt_of_le (Nat.le_refl 11), Expr.parens_member]
        omega
      · rename_i value heq
        have hvalue := hpart.index heq
        rw [Expr.parensAt_of_le (Nat.le_refl 11), Expr.parens_index,
          Expr.parensAt_of_le (Nat.zero_le _)]
        omega
      · omega

/-! ## Trees -/

/-- The parts of a tree pay for their meanings, and the text of the tree has their parentheses and
those that its rule spells out. -/
structure Counted (text : List Char) (rule : Rule) (whole : Part) (parts : List Part) : Prop where
  standing : Standing text rule whole parts
  pays : ∀ part ∈ parts, part.Pays
  count_le : (body rule).spelled '(' + parensOf parts ≤ whole.parens

namespace Counted

variable {rule : Rule} {whole : Part} {parts : List Part} {demanded : Nat}

/-- What is written has as many parentheses as all parts together. -/
theorem parensOf_le (h : Counted text rule whole parts) : parensOf parts ≤ whole.parens :=
  Nat.le_trans (Nat.le_add_left _ _) h.count_le

/-- An expression among the parts has the parentheses that it needs where it stands. -/
theorem expr_le (h : Counted text rule whole parts) (hreaches : reaches rule demanded = true) :
    ∀ part ∈ parts, ∀ e, part.meaning = .expr e → e.parensAt demanded ≤ part.parens := by
  intro part hpart e he
  obtain ⟨hrecorded, hgrades⟩ := Bool.and_eq_true_iff.1 hreaches
  have hmentions := h.standing.mem_mentions hpart (of_decide_eq_true hrecorded)
  have hgrade := List.all_eq_true.1 hgrades _ hmentions
  have hcategory := (h.standing.fits part hpart).category_eq
  rw [he, Meaning.category] at hcategory
  rw [ofKind, ← hcategory] at hgrade
  exact Nat.le_trans (Expr.parensAt_mono (by simpa using hgrade)) ((h.pays part hpart).expr he)

theorem exprs_le (h : Counted text rule whole parts) (hreaches : reaches rule demanded = true) :
    ((exprsOf parts).map fun e => e.parensAt demanded).sum ≤ parensOf parts :=
  parens_exprsOf_le (h.expr_le hreaches)

/-- The first expression among the parts. -/
theorem head_le (h : Counted text rule whole parts) {e : Expr}
    (he : (exprsOf parts).head? = some e) (hreaches : reaches rule demanded = true) :
    e.parensAt demanded ≤ parensOf parts := by
  obtain ⟨rest, hrest⟩ := List.head?_eq_some_iff.1 he
  have hsum := h.exprs_le hreaches
  rw [hrest, List.map_cons, List.sum_cons] at hsum
  omega

/-- The first part of a tree, if it is an expression, and those behind it. -/
theorem first (h : Counted text rule whole parts) {r : Rule} {e : Peg.Expr Rule}
    (hbody : body rule = .seq (.rule r) e) (hr : categoryOf r = .expr)
    (hrecorded : kind rule ≠ .token ∧ kind r ≠ .hidden) :
    ∃ part rest value, parts = part :: rest ∧ part.meaning = .expr value ∧
      value.parensAt (gradeOf r) ≤ part.parens ∧ Labels grammar e (rest.map Part.rule) := by
  have hlabels := h.standing.labels hrecorded.1
  rw [hbody] at hlabels
  obtain ⟨rules, hrules, hrest⟩ := hlabels.seq_rule hrecorded.2
  obtain ⟨part, rest, rfl, hrule, rfl⟩ := List.map_eq_cons_iff.1 hrules
  have hpays := h.pays part List.mem_cons_self
  have hcategory := (h.standing.fits part List.mem_cons_self).category_eq
  rw [hrule, hr] at hcategory
  cases hmeaning : part.meaning with
  | expr value => exact ⟨part, rest, value, rfl, hmeaning, hrule ▸ hpays.expr hmeaning, hrest⟩
  | _ => simp [hmeaning, Meaning.category] at hcategory

/-- An expression that a tree has from its parts. -/
theorem through (h : Counted text rule whole parts) {e : Expr}
    (he : (exprsOf parts).head? = some e) (hreaches : reaches rule (gradeOf rule) = true) :
    e.parensAt (gradeOf rule) ≤ whole.parens :=
  Nat.le_trans (h.head_le he hreaches) h.parensOf_le

/-- The expressions behind the first part. -/
theorem rest_le {part : Part} {rest : List Part} (h : Counted text rule whole (part :: rest))
    (hreaches : reaches rule demanded = true) :
    ((exprsOf rest).map fun e => e.parensAt demanded).sum ≤ parensOf rest :=
  parens_exprsOf_le (List.forall_mem_cons.1 (h.expr_le hreaches)).2

/-! ### Expressions -/

/-- Operands with operators between that group to the left. -/
theorem operands_le (h : Counted text rule whole parts) {r : Rule} {f : Peg.Expr Rule}
    (hbody : body rule = .seq (.rule r) f) (hr : categoryOf r = .expr)
    (hreaches : reaches rule (gradeOf rule + 1) = true)
    (hoperators : ((body rule).mentions.all fun r => (binaryOpOf? r).all fun op =>
      gradeOf rule = op.precedence + 1 && op ≠ .pow) = true)
    (hrecorded : kind rule ≠ .token ∧ kind rule ≠ .hidden ∧ kind r ≠ .hidden)
    {left e : Expr} {span : Span} (hleft : (exprsOf parts).head? = some left)
    (he : foldOperands span left parts.tail = .ok e) :
    e.parensAt (gradeOf rule) ≤ whole.parens := by
  obtain ⟨htoken, hhidden, hfirst⟩ := hrecorded
  have hoperands := h.expr_le hreaches
  obtain ⟨part, rest, value, rfl, hmeaning, -, -⟩ := h.first hbody hr ⟨htoken, hfirst⟩
  rw [exprsOf_cons hmeaning] at hleft
  obtain rfl := Option.some.inj hleft
  obtain ⟨hpart, hrest⟩ := List.forall_mem_cons.1 hoperands
  have hle := h.parensOf_le
  rw [parensOf_cons] at hle
  have hvalue := Nat.le_trans (Expr.parensAt_mono (Nat.le_succ _)) (hpart value hmeaning)
  refine Nat.le_trans (parens_foldOperands rest hvalue (fun part hpart op hop => ?_) hrest he) hle
  have hmentions := h.standing.mem_mentions (List.mem_cons_of_mem _ hpart) ⟨htoken, hhidden⟩
  have hall := List.all_eq_true.1 hoperators _ hmentions
  rw [hop] at hall
  simpa using hall

/-- A power, whose exponent can be a power. -/
theorem power_le (h : Counted text .exponentExpr whole parts) {left e : Expr} {span : Span}
    (hleft : (exprsOf parts).head? = some left)
    (he : foldOperands span left parts.tail = .ok e) : e.parensAt 9 ≤ whole.parens := by
  have hle := h.parensOf_le
  obtain ⟨part, rest, value, rfl, hmeaning, hpart, hlabels⟩ := h.first rfl rfl (by decide)
  rw [exprsOf_cons hmeaning] at hleft
  obtain rfl := Option.some.inj hleft
  rw [parensOf_cons] at hle
  have hbase : value.parensAt 10 ≤ part.parens := hpart
  have hforms : rest.map Part.rule ∈ [[], [.opPow, .exponentExpr]] :=
    hlabels.mem_forms (by decide) rfl
  rw [List.tail_cons] at he
  rcases List.mem_cons.1 hforms with hnone | hsome
  · rw [List.map_eq_nil_iff.1 hnone] at he
    obtain rfl := Except.ok.inj he
    have hmono := value.parensAt_mono (show 9 ≤ 10 by decide)
    omega
  · obtain ⟨operator, others, rfl, hoperator, hothers⟩ :=
      List.map_eq_cons_iff.1 (List.mem_singleton.1 hsome)
    obtain ⟨operand, others, rfl, hoperand, hnone⟩ := List.map_eq_cons_iff.1 hothers
    obtain rfl := List.map_eq_nil_iff.1 hnone
    have hpays := h.pays operand (by simp)
    rw [foldOperands, hoperator] at he
    cases hmeaning : operand.meaning with
    | expr exponent =>
        rw [hmeaning] at he
        obtain rfl := Except.ok.inj he
        have hexponent := hpays.expr hmeaning
        rw [hoperand, gradeOf] at hexponent
        rw [parensOf_cons, parensOf_cons] at hle
        rw [Expr.parensAt_of_le (Nat.le_refl 9), Expr.parens_binary]
        have hdemand : BinaryOp.pow.demand false = 10 ∧ BinaryOp.pow.demand true = 9 := by decide
        rw [hdemand.1, hdemand.2]
        omega
    | _ =>
        rw [hmeaning] at he
        contradiction

theorem assembled_expr (h : Counted text rule whole parts) {e : Expr}
    (he : assembleExpr? rule whole parts = some (.ok e)) :
    e.parensAt (gradeOf rule) ≤ whole.parens := by
  have hcount := h.count_le
  have hle := h.parensOf_le
  -- what is no operation needs no parentheses
  have hplain {value : Expr} (hslots : value.slots = []) (hown : value.ownParens = 0)
      (hgrade : gradeOf rule ≤ value.grade) : value.parensAt (gradeOf rule) ≤ whole.parens := by
    rw [Expr.parensAt_of_le hgrade, Expr.parens_of_slots_eq_nil hslots hown]
    exact Nat.zero_le _
  cases rule with
  | assignExpr | literal | templateSub | classHeritage =>
      exact h.through (need_ok (Option.some.inj he)) (by decide)
  | parenExpr =>
      have hhead : e.parensAt 0 ≤ parensOf parts :=
        h.head_le (need_ok (Option.some.inj he)) (by decide)
      have hspelled : (body .parenExpr).spelled '(' = 1 := by decide
      have hparen := e.parensAt_le (gradeOf .parenExpr)
      rw [Expr.parensAt_of_le (Nat.zero_le _)] at hhead
      omega
  | primary =>
      have hprimary := Option.some.inj he
      split at hprimary
      · obtain rfl := Except.ok.inj hprimary
        exact hplain rfl rfl (Nat.le_refl _)
      · exact h.through (need_ok hprimary) (by decide)
  | expression =>
      have hexprs := Option.some.inj he
      split at hexprs
      · contradiction
      · rename_i value heq
        obtain rfl := Except.ok.inj hexprs
        exact h.through (by rw [heq]; rfl) (by decide)
      · obtain rfl := Except.ok.inj hexprs
        have hall : Expr.parensAll (exprsOf parts) ≤ parensOf parts := h.exprs_le (by decide)
        rw [gradeOf, Expr.parensAt_of_le (Nat.zero_le _), Expr.parens_sequence]
        exact Nat.le_trans hall hle
  | spreadElement | awaitExpr | newExpr =>
      obtain ⟨value, -, he⟩ := need_bind (Option.some.inj he)
      obtain rfl := Except.ok.inj he
      exact hplain rfl rfl (Nat.le_refl _)
  | arrowFunction =>
      obtain ⟨body, -, he⟩ := need_bind (Option.some.inj he)
      obtain rfl := Except.ok.inj he
      exact hplain rfl rfl (Nat.le_refl _)
  | functionExpr =>
      obtain ⟨value, -, he⟩ := need_bind (Option.some.inj he)
      obtain rfl := Except.ok.inj he
      -- a function as an operand has the parenthesis before its parameters
      have hspelled : (body .functionExpr).spelled '(' = 1 := by decide
      refine Nat.le_trans (Expr.parensAt_le _ _) ?_
      rw [Expr.parens_of_slots_eq_nil rfl rfl]
      omega
  | assignment =>
      obtain ⟨op, -, he⟩ := need_bind (Option.some.inj he)
      obtain ⟨value, hvalue, he⟩ := need_bind he
      obtain ⟨target, htarget, he⟩ := need_bind he
      obtain rfl := Except.ok.inj he
      obtain ⟨part, rest, first, rfl, hmeaning, hpart, -⟩ := h.first rfl rfl (by decide)
      have hrest : Expr.parensAll (exprsOf rest) ≤ parensOf rest := h.rest_le (by decide)
      rw [exprsOf_cons hmeaning] at htarget hvalue
      obtain rfl := Option.some.inj htarget
      obtain ⟨others, hothers⟩ : ∃ others, exprsOf rest = value :: others :=
        List.head?_eq_some_iff.1 (List.head?_eq_getElem?.trans hvalue)
      rw [hothers, Expr.parensAll, List.map_cons, List.sum_cons] at hrest
      rw [parensOf_cons] at hle
      have htarget : first.parensAt 11 ≤ part.parens := hpart
      rw [gradeOf, Expr.parensAt_of_le (Nat.le_refl 1), Expr.parens_assign]
      omega
  | ternaryExpr =>
      have hexprs := Option.some.inj he
      split at hexprs
      · rename_i value heq
        obtain rfl := Except.ok.inj hexprs
        exact h.through (by rw [heq]; rfl) (by decide)
      · rename_i condition consequent alternate heq
        obtain rfl := Except.ok.inj hexprs
        obtain ⟨part, rest, first, rfl, hmeaning, hpart, -⟩ := h.first rfl rfl (by decide)
        have hrest : Expr.parensAll (exprsOf rest) ≤ parensOf rest := h.rest_le (by decide)
        rw [exprsOf_cons hmeaning] at heq
        obtain ⟨rfl, hbranches⟩ := List.cons.inj heq
        rw [hbranches] at hrest
        rw [parensOf_cons] at hle
        simp only [Expr.parensAll, List.map_cons, List.map_nil, List.sum_cons, List.sum_nil] at hrest
        rw [gradeOf, Expr.parensAt_of_le (Nat.le_refl 1), Expr.parens_ternary]
        have hcondition : first.parensAt 2 ≤ part.parens := hpart
        omega
      · contradiction
  | nullishExpr | logicalOrExpr | logicalAndExpr | equalityExpr | comparisonExpr | additiveExpr
  | multiplicativeExpr =>
      obtain ⟨left, hleft, he⟩ := need_bind (Option.some.inj he)
      exact h.operands_le rfl rfl (by decide) (by decide) (by decide) hleft he
  | exponentExpr =>
      obtain ⟨left, hleft, he⟩ := need_bind (Option.some.inj he)
      exact h.power_le hleft he
  | unaryExpr =>
      obtain ⟨operand, hoperand, he⟩ := need_bind (Option.some.inj he)
      obtain rfl := Except.ok.inj he
      have hthrough := h.through hoperand (by decide)
      split
      · exact hplain rfl rfl (Nat.le_refl _)
      · split
        · rwa [gradeOf, Expr.parensAt_of_le (Nat.le_refl 10), Expr.parens_update]
        · split
          · rwa [gradeOf, Expr.parensAt_of_le (Nat.le_refl 10), Expr.parens_update]
          · exact hthrough
  | postfixExpr =>
      obtain ⟨target, htarget, he⟩ := need_bind (Option.some.inj he)
      obtain rfl := Except.ok.inj he
      have hhead : target.parensAt 11 ≤ parensOf parts := h.head_le htarget (by decide)
      split
      · rw [gradeOf, Expr.parensAt_of_le (Nat.le_refl 10), Expr.parens_update]
        exact Nat.le_trans hhead hle
      · exact h.through htarget (by decide)
  | callExpr =>
      obtain ⟨target, htarget, he⟩ := need_bind (Option.some.inj he)
      obtain rfl := Except.ok.inj he
      obtain ⟨part, rest, first, rfl, hmeaning, hpart, -⟩ := h.first rfl rfl (by decide)
      rw [exprsOf_cons hmeaning] at htarget
      obtain rfl := Option.some.inj htarget
      rw [parensOf_cons] at hle
      exact Nat.le_trans (parens_foldTrailers rest hpart (List.forall_mem_cons.1 h.pays).2) hle
  | newCallee =>
      obtain ⟨head, hhead, he⟩ := need_bind (Option.some.inj he)
      obtain rfl := Except.ok.inj he
      have hname : head.identExpr.parensAt 11 ≤ 0 := by
        rw [Expr.parensAt_of_le (Nat.le_refl 11), Expr.parens_of_slots_eq_nil rfl rfl]
      have htail := parens_foldTrailers parts.tail hname fun part hpart =>
        h.pays part (List.mem_of_mem_tail hpart)
      exact Nat.le_trans htail (by rw [Nat.zero_add]; exact Nat.le_trans (parensOf_tail_le _) hle)
  | arrayLit | objectLit | boolean | nullLit | regex | template =>
      obtain rfl := Except.ok.inj (Option.some.inj he)
      exact hplain rfl rfl (Nat.le_refl _)
  | number =>
      have hnumber := Option.some.inj he
      split at hnumber
      · obtain rfl := Except.ok.inj hnumber
        exact hplain rfl rfl (Nat.le_refl _)
      · contradiction
  | string =>
      obtain ⟨content, -, he⟩ := need_bind (Option.some.inj he)
      obtain rfl := Except.ok.inj he
      exact hplain rfl rfl (Nat.le_refl _)
  | _ => contradiction

/-! ### Statements and pieces -/

theorem assembled_stmt (h : Counted text rule whole parts) {stmt : Stmt}
    (hstmt : assembleStmt? rule whole parts = some (.ok stmt)) :
    (Meaning.stmt stmt).parens rule ≤ whole.parens := by
  cases rule with
  | statement | elseClause | finallyClause =>
      have hmem := List.mem_of_head? (need_ok (Option.some.inj hstmt))
      exact Nat.le_trans (parens_stmtsOf_le h.pays hmem _) h.parensOf_le
  | exprStmt =>
      obtain ⟨e, he, hstmt⟩ := need_bind (Option.some.inj hstmt)
      obtain rfl := Except.ok.inj hstmt
      have hhead : e.parensAt 0 ≤ parensOf parts := h.head_le he (by decide)
      rw [Expr.parensAt_of_le (Nat.zero_le _)] at hhead
      exact Nat.le_trans hhead h.parensOf_le
  | block | emptyStmt | breakStmt | continueStmt | unknownStmt | returnStmt =>
      obtain rfl := Except.ok.inj (Option.some.inj hstmt)
      exact Nat.zero_le _
  | declareStmt =>
      have hdeclare := Option.some.inj hstmt
      split at hdeclare
      · obtain rfl := Except.ok.inj hdeclare
        exact Nat.zero_le _
      · contradiction
  | switchStmt | classDecl | forStmt | throwStmt | tryStmt =>
      obtain ⟨_, -, hstmt⟩ := need_bind (Option.some.inj hstmt)
      obtain rfl := Except.ok.inj hstmt
      exact Nat.zero_le _
  | functionDecl | ifStmt | whileStmt | doWhileStmt | labeledStmt =>
      obtain ⟨_, -, hstmt⟩ := need_bind (Option.some.inj hstmt)
      obtain ⟨_, -, hstmt⟩ := need_bind hstmt
      obtain rfl := Except.ok.inj hstmt
      exact Nat.zero_le _
  | forLoopStmt =>
      obtain ⟨_, -, hstmt⟩ := need_bind (Option.some.inj hstmt)
      obtain ⟨_, -, hstmt⟩ := need_bind hstmt
      obtain ⟨_, -, hstmt⟩ := need_bind hstmt
      obtain ⟨_, -, hstmt⟩ := need_bind hstmt
      obtain rfl := Except.ok.inj hstmt
      exact Nat.zero_le _
  | _ => contradiction

/-- Only statements, expressions, accesses, calls and lists of expressions need parentheses. -/
theorem parens_eq_zero {meaning : Meaning} (hcategory : meaning.category = categoryOf rule)
    (hstmt : ofKind .stmt rule = false) (hexpr : ofKind .expr rule = false)
    (hlisted : isListed rule = false) : meaning.parens rule = 0 := by
  rw [ofKind, ← hcategory] at hstmt hexpr
  rw [isListed, ofKind, ofKind, ← hcategory] at hlisted
  cases meaning with
  | stmt => contradiction
  | expr => contradiction
  | exprs | args | index => contradiction
  | _ => rfl

theorem assembled_list (h : Counted text rule whole parts) {meaning : Meaning}
    (hmeaning : assemblePiece rule whole parts = .ok meaning)
    (hcategory : meaning.category = categoryOf rule) (hlisted : isListed rule = true) :
    meaning.parens rule ≤ whole.parens := by
  have hcount := h.count_le
  have hle := h.parensOf_le
  cases rule with
  | argList =>
      obtain rfl := Except.ok.inj hmeaning
      have hall : Expr.parensAll (exprsOf parts) ≤ parensOf parts := h.exprs_le (by decide)
      exact Nat.le_trans hall hle
  | callSuffix =>
      obtain rfl := Except.ok.inj hmeaning
      have hspelled : (body .callSuffix).spelled '(' = 1 := by decide
      have hargs := parens_argsOf_le h.pays
      rw [Meaning.parens]
      omega
  | trailer =>
      dsimp only [assemblePiece] at hmeaning
      split at hmeaning
      · rename_i part
        obtain rfl := Except.ok.inj hmeaning
        have hpays := Nat.le_trans (h.pays part List.mem_cons_self)
          (Nat.le_trans (le_parensOf List.mem_cons_self) hle)
        cases heq : part.meaning with
        | args | index | access =>
            rw [heq] at hpays
            exact hpays
        | _ =>
            rw [heq] at hcategory
            contradiction
      · contradiction
  | indexAccess =>
      obtain ⟨value, hvalue, hmeaning⟩ := need_bind hmeaning
      obtain rfl := Except.ok.inj hmeaning
      have hhead : value.parensAt 0 ≤ parensOf parts := h.head_le hvalue (by decide)
      rw [Expr.parensAt_of_le (Nat.zero_le _)] at hhead
      exact Nat.le_trans hhead hle
  | optionalAccess | regularAccess =>
      obtain ⟨name, -, hmeaning⟩ := need_bind hmeaning
      obtain rfl := Except.ok.inj hmeaning
      exact Nat.zero_le _
  | _ => exact absurd hlisted (by decide)

/-- The text of a tree has the opening parentheses that its meaning needs. -/
theorem assembled (h : Counted text rule whole parts) {meaning : Meaning}
    (hmeaning : assemble rule whole parts = .ok meaning) :
    meaning.parens rule ≤ whole.parens := by
  have hisStmt := isSome_assembleStmt? rule whole parts
  have hisExpr := isSome_assembleExpr? rule whole parts
  have hcategory := (h.standing.assembled hmeaning).category_eq
  unfold assemble at hmeaning
  split at hmeaning
  · rename_i hstmt
    obtain ⟨stmt, rfl, rfl⟩ := map_ok hmeaning
    exact h.assembled_stmt hstmt
  · rename_i hstmt
    split at hmeaning
    · rename_i hexpr
      obtain ⟨e, rfl, rfl⟩ := map_ok hmeaning
      exact h.assembled_expr hexpr
    · rename_i hexpr
      rw [hstmt] at hisStmt
      rw [hexpr] at hisExpr
      split at hmeaning
      · obtain ⟨pattern, rfl, rfl⟩ := map_ok hmeaning
        exact Nat.zero_le _
      · cases hlisted : isListed rule with
        | true => exact h.assembled_list hmeaning hcategory hlisted
        | false =>
            rw [parens_eq_zero hcategory hisStmt.symm hisExpr.symm hlisted]
            exact Nat.zero_le _

end Counted

mutual

/-- A tree that the grammar gives has the parentheses that its meaning needs. -/
theorem pays_ofTree (tree : Peg.Tree Rule) (hgrown : Grown text tree) {part : Part}
    (h : Part.ofTree (.ofText text) tree = .ok part) :
    part.Pays ∧ part.parens = tree.count '(' := by
  match tree with
  | .node rule start stop children =>
      unfold Part.ofTree at h
      obtain ⟨parts, hparts, h⟩ := bind_ok h
      obtain ⟨meaning, hmeaning, h⟩ := bind_ok h
      obtain rfl := Except.ok.inj h
      have hstanding := (fits_ofTrees children hgrown.children hparts).standing hgrown
      obtain ⟨hpays, hcount⟩ := pays_ofTrees children hgrown.children hparts
      have hderived := hgrown.derived.count_le skips_grammar (c := '(')
      rw [← hcount] at hderived
      have hcounted : Counted text rule _ parts := ⟨hstanding, hpays, hderived⟩
      exact ⟨hcounted.assembled hmeaning, rfl⟩

theorem pays_ofTrees (trees : List (Peg.Tree Rule)) (hgrown : ∀ tree ∈ trees, Grown text tree)
    {parts : List Part} (h : Part.ofTrees (.ofText text) trees = .ok parts) :
    (∀ part ∈ parts, part.Pays) ∧ parensOf parts = (trees.map (Tree.count '(')).sum := by
  match trees with
  | [] =>
      obtain rfl := Except.ok.inj h
      exact ⟨by simp, rfl⟩
  | tree :: rest =>
      unfold Part.ofTrees at h
      obtain ⟨part, hpart, h⟩ := bind_ok h
      obtain ⟨parts, hparts, h⟩ := bind_ok h
      obtain rfl := Except.ok.inj h
      obtain ⟨htree, hrest⟩ := List.forall_mem_cons.1 hgrown
      obtain ⟨hpays, hcount⟩ := pays_ofTree tree htree hpart
      obtain ⟨hrestPays, hrestCount⟩ := pays_ofTrees rest hrest hparts
      refine ⟨List.forall_mem_cons.2 ⟨hpays, hrestPays⟩, ?_⟩
      rw [parensOf_cons, hcount, hrestCount, List.map_cons, List.sum_cons]

end

/-- The expression statements of a script have in its text all opening parentheses that they
need. -/
theorem parens_le_count {source : String} {program : Program} (h : parse source = .ok program)
    {e : Expr} {span : Span} (he : .exprStmt e span ∈ program.body) :
    e.parens ≤ source.toList.count '(' := by
  obtain ⟨-, stop, children, parts, -, hgrown, hparts, rfl⟩ := exists_parts h
  obtain ⟨hpays, hcount⟩ := pays_ofTrees children hgrown.children hparts
  have hderived := hgrown.derived.count_le skips_grammar (c := '(')
  have hle := parens_stmtsOf_le hpays he .statement
  rw [Meaning.parens, hcount] at hle
  have htree := Nat.le_trans (Nat.le_add_left _ _) hderived
  exact Nat.le_trans hle (Nat.le_trans htree (Nat.sub_le _ _))

end EventLoop.Script
