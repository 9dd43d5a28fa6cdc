import EventLoop.Proofs.Script.Formula

/-!
# Grouped expressions

An expression binds as tightly as its outermost operator (`Expr.grade`), and every operator demands
a grade of its operands.  An operand of a lower grade has to stand in parentheses.

An expression is grouped (`Expr.IsGrouped`) if each part of it, as it is rendered, stands in
parentheses or is of the grade that is demanded of it (`Expr.Stands`).  Formulas are grouped,
because whatever binds loosely in them is rendered in parentheses (`Expr.IsFormula.grouped`).  An
assignment, a condition, a list with commas or a counter of a variable need not be grouped: commas
at a side of a binary operator, for one, are rendered without parentheses.
-/

namespace EventLoop.Script

/-- The grade that a binary operator demands of an operand: its own, and more on the side to which
it does not group. -/
def BinaryOp.demand (op : BinaryOp) (isRight : Bool) : Nat :=
  op.precedence + if isRight != (op = .pow) then 2 else 1

theorem BinaryOp.precedence_bounds (op : BinaryOp) : 0 < op.precedence ∧ op.precedence ≤ 8 := by
  cases op <;> decide

theorem BinaryOp.demand_bounds (op : BinaryOp) (isRight : Bool) :
    op.precedence < op.demand isRight ∧ op.demand isRight ≤ 10 := by
  cases op <;> cases isRight <;> decide

namespace Expr

/-- How tightly the outermost operator of an expression binds: from commas, over assignments,
conditions and binary operators, to the operators of one operand and to what is no operation. -/
def grade : Expr → Nat
  | .sequence _ _ => 0
  | .assign _ _ _ _ | .ternary _ _ _ _ | .function _ _ _ _ _ _ => 1
  | .binary op _ _ _ => op.precedence + 1
  | .await _ _ | .unary _ _ _ | .update _ _ _ _ => 10
  | _ => 11

theorem one_le_grade_iff {e : Expr} : 1 ≤ e.grade ↔ e.isSequence = false := by
  cases e with
  | sequence => exact iff_of_false (Nat.not_succ_le_zero 0) nofun
  | _ => exact iff_of_true (Nat.succ_pos _) rfl

/-- An expression stands where a grade is demanded: in parentheses, or because it is of that
grade. -/
def Stands (e : Expr) (grouped : Bool) (demanded : Nat) : Prop :=
  grouped = true ∨ demanded ≤ e.grade

/-- An expression of names, truth values, texts of one line, lists, accesses, calls and operators
whose parts stand where they are rendered. -/
inductive IsGrouped : Expr → Prop where
  | ident {name : String} (h : IsAccepted name) (span : Span) : IsGrouped (.ident name span)
  | bool (value : Bool) (span : Span) : IsGrouped (.bool value span)
  | null (span : Span) : IsGrouped (.null span)
  | string {value : String} (h : ∀ c ∈ value.toList, isLineEnd c = false) (span : Span) :
      IsGrouped (.string value span)
  | list {elements : List Expr} (h : ∀ e ∈ elements, IsGrouped e) (span : Span) :
      IsGrouped (.list elements span)
  | member {owner : Expr} {property : String} (h : IsGrouped owner)
      (hstands : owner.Stands owner.isLoose 11) (hproperty : IsName property.toList)
      (propertySpan : Span) (isOptional : Bool) (span : Span) :
      IsGrouped (.member owner property propertySpan isOptional span)
  | index {owner index : Expr} (h : IsGrouped owner) (hstands : owner.Stands owner.isLoose 11)
      (hindex : IsGrouped index) (span : Span) : IsGrouped (.index owner index span)
  | call {callee : Expr} {args : List Expr} (h : IsGrouped callee)
      (hstands : callee.Stands callee.isLoose 11) (hargs : ∀ e ∈ args, IsGrouped e) (span : Span) :
      IsGrouped (.call callee args span)
  | await {inner : Expr} (h : IsGrouped inner) (hstands : inner.Stands inner.isLoose 11)
      (span : Span) : IsGrouped (.await inner span)
  | unary (op : UnaryOp) {operand : Expr} (h : IsGrouped operand)
      (hstands : operand.Stands operand.isLoose 11) (span : Span) :
      IsGrouped (.unary op operand span)
  | update (op : UpdateOp) {leading : Bool} {target : Expr} (h : IsGrouped target)
      (hstands : target.Stands target.isLoose (if leading then 10 else 11)) (span : Span) :
      IsGrouped (.update op leading target span)
  | binary (op : BinaryOp) {left right : Expr} (h : IsGrouped left) (hright : IsGrouped right)
      (hstands : left.Stands (left.needsGrouping op false) (op.demand false))
      (hrightStands : right.Stands (right.needsGrouping op true) (op.demand true)) (span : Span) :
      IsGrouped (.binary op left right span)
  | assign (op : AssignOp) {target value : Expr} (h : IsGrouped target) (hvalue : IsGrouped value)
      (hstands : target.Stands false 11) (hvalueStands : value.Stands false 1) (span : Span) :
      IsGrouped (.assign op target value span)
  | ternary {condition consequent alternate : Expr} (h : IsGrouped condition)
      (hconsequent : IsGrouped consequent) (halternate : IsGrouped alternate)
      (hstands : condition.Stands false 2) (hconsequentStands : consequent.Stands false 1)
      (halternateStands : alternate.Stands false 1) (span : Span) :
      IsGrouped (.ternary condition consequent alternate span)
  | sequence {exprs : List Expr} (h : ∀ e ∈ exprs, IsGrouped e) (hmany : 2 ≤ exprs.length)
      (span : Span) : IsGrouped (.sequence exprs span)

/-! ## Formulas are grouped -/

theorem IsFormula.stands {e : Expr} (h : IsFormula e) : e.Stands e.isLoose 11 := by
  cases h <;> first | exact .inl rfl | exact .inr (Nat.le_refl 11)

/-- What is no list with commas stands at both sides of binary operators. -/
theorem stands_side {e : Expr} (h : 1 ≤ e.grade) (op : BinaryOp) (isRight : Bool) :
    e.Stands (e.needsGrouping op isRight) (op.demand isRight) := by
  obtain ⟨-, hdemand⟩ := op.demand_bounds isRight
  cases e with
  | binary inner =>
      unfold Stands needsGrouping grade BinaryOp.demand
      cases hside : isRight != decide (op = .pow) with
      | true =>
          simp only [Bool.and_true, Bool.or_eq_true, decide_eq_true_eq, if_true]
          omega
      | false =>
          simp only [Bool.and_false, Bool.or_false, decide_eq_true_eq, Bool.false_eq_true, if_false]
          omega
  | ternary | assign | function => exact .inl rfl
  | sequence => exact absurd h (by rw [grade]; omega)
  | await | unary | update => exact .inr hdemand
  | _ => exact .inr (Nat.le_succ_of_le hdemand)

/-- **Formulas are grouped.** -/
theorem IsFormula.grouped {e : Expr} (h : IsFormula e) : IsGrouped e := by
  induction h with
  | ident hname span => exact .ident hname.accepted span
  | bool value span => exact .bool value span
  | null span => exact .null span
  | string hline span => exact .string hline span
  | list _ span ih => exact .list ih span
  | member h hproperty propertySpan isOptional span ih =>
      exact .member ih h.stands hproperty propertySpan isOptional span
  | index h _ span ih ihindex => exact .index ih h.stands ihindex span
  | call h _ span ih ihargs => exact .call ih h.stands ihargs span
  | await h span ih => exact .await ih h.stands span
  | unary op h span ih => exact .unary op ih h.stands span
  | binary op h hright span ih ihright =>
      have hgrade {e : Expr} (he : IsFormula e) : 1 ≤ e.grade := by
        cases he <;> exact Nat.succ_pos _
      exact .binary op ih ihright (stands_side (hgrade h) op false)
        (stands_side (hgrade hright) op true) span

/-! ## Shapes -/

mutual

/-- The shape of an expression: a grouped expression without its spans. -/
def shape : Expr → Expr
  | .ident name _ => .ident name .zero
  | .bool value _ => .bool value .zero
  | .null _ => .null .zero
  | .string value _ => .string value .zero
  | .list elements _ => .list (shapes elements) .zero
  | .member owner property _ isOptional _ => .member owner.shape property .zero isOptional .zero
  | .index owner position _ => .index owner.shape position.shape .zero
  | .call callee args _ => .call callee.shape (shapes args) .zero
  | .await inner _ => .await inner.shape .zero
  | .unary op operand _ => .unary op operand.shape .zero
  | .update op leading target _ => .update op leading target.shape .zero
  | .binary op left right _ => .binary op left.shape right.shape .zero
  | .assign op target value _ => .assign op target.shape value.shape .zero
  | .ternary condition consequent alternate _ =>
    .ternary condition.shape consequent.shape alternate.shape .zero
  | .sequence exprs _ => .sequence (shapes exprs) .zero
  | e => e

/-- The shapes of expressions. -/
def shapes : List Expr → List Expr
  | [] => []
  | e :: es => e.shape :: shapes es

end

theorem shapes_eq_map (es : List Expr) : shapes es = es.map shape := by
  induction es with
  | nil => rw [shapes, List.map_nil]
  | cons e es ih => rw [shapes, ih, List.map_cons]

theorem IsFormula.shape_isFormula {e : Expr} (h : IsFormula e) : IsFormula e.shape := by
  induction h with
  | ident hname _ => rw [shape]; exact .ident hname .zero
  | bool value _ => rw [shape]; exact .bool value .zero
  | null _ => rw [shape]; exact .null .zero
  | string hline _ => rw [shape]; exact .string hline .zero
  | list _ _ ih =>
      rw [shape, shapes_eq_map]
      exact .list (List.forall_mem_map.2 ih) .zero
  | member _ hproperty _ isOptional _ ih =>
      rw [shape]
      exact .member ih hproperty .zero isOptional .zero
  | index _ _ _ ih ihindex => rw [shape]; exact .index ih ihindex .zero
  | call _ _ _ ih ihargs =>
      rw [shape, shapes_eq_map]
      exact .call ih (List.forall_mem_map.2 ihargs) .zero
  | await _ _ ih => rw [shape]; exact .await ih .zero
  | unary op _ _ ih => rw [shape]; exact .unary op ih .zero
  | binary op _ _ _ ih ihright => rw [shape]; exact .binary op ih ihright .zero

mutual

/-- What has the shape of a formula is a formula: without its spans it is its shape. -/
theorem bare_eq_shape (e : Expr) (h : IsFormula e.shape) : e.bare = e.shape := by
  match e with
  | .ident _ _ | .bool _ _ | .null _ | .string _ _ => rfl
  | .list elements _ =>
      rw [shape] at h ⊢
      cases h with
      | list helements => rw [bare, bareAll_eq_shapes elements helements]
  | .member owner _ _ _ _ =>
      rw [shape] at h ⊢
      cases h with
      | member howner => rw [bare, bare_eq_shape owner howner]
  | .index owner position _ =>
      rw [shape] at h ⊢
      cases h with
      | index howner hposition =>
          rw [bare, bare_eq_shape owner howner, bare_eq_shape position hposition]
  | .call callee args _ =>
      rw [shape] at h ⊢
      cases h with
      | call hcallee hargs =>
          rw [bare, bare_eq_shape callee hcallee, bareAll_eq_shapes args hargs]
  | .await inner _ =>
      rw [shape] at h ⊢
      cases h with
      | await hinner => rw [bare, bare_eq_shape inner hinner]
  | .unary _ operand _ =>
      rw [shape] at h ⊢
      cases h with
      | unary _ hoperand => rw [bare, bare_eq_shape operand hoperand]
  | .binary _ left right _ =>
      rw [shape] at h ⊢
      cases h with
      | binary _ hleft hright =>
          rw [bare, bare_eq_shape left hleft, bare_eq_shape right hright]
  | .update _ _ _ _ | .assign _ _ _ _ | .ternary _ _ _ _ | .sequence _ _ =>
      rw [shape] at h
      cases h
  | .number _ _ | .template _ _ _ | .regex _ _ _ | .object _ _ | .construct _ _ _
  | .function _ _ _ _ _ _ | .spread _ _ => rfl

theorem bareAll_eq_shapes (es : List Expr) (h : ∀ e ∈ shapes es, IsFormula e) :
    bareAll es = shapes es := by
  match es with
  | [] => rfl
  | e :: es =>
      rw [shapes] at h ⊢
      obtain ⟨he, hes⟩ := List.forall_mem_cons.1 h
      rw [bareAll, bare_eq_shape e he, bareAll_eq_shapes es hes]

end

/-- What has the shape of a formula differs from it in its spans only. -/
theorem IsFormula.bare_eq {e value : Expr} (h : IsFormula e) (hshape : value.shape = e.shape) :
    value.bare = e.bare := by
  have hvalue : IsFormula value.shape := by
    rw [hshape]
    exact h.shape_isFormula
  rw [bare_eq_shape value hvalue, bare_eq_shape e h.shape_isFormula, hshape]

end Expr

end EventLoop.Script
