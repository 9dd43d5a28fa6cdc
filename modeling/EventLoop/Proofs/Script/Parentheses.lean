import EventLoop.Proofs.Script.Slots
import Mathlib.Algebra.Order.BigOperators.Group.List
import Mathlib.Algebra.Order.Ring.Nat

/-!
# The parentheses that an operation needs

To write an operation it takes an opening parenthesis for each call, and one for each slot in which
something stands that is not of the grade that is demanded there (`Expr.parens`).  Its text never
has more of them (`IsOperation.count_le_parens`), and it has all of them only if it keeps the groups
of the operation (`IsOperation.keepsGroups_of_parens_le`).
-/

namespace EventLoop.Script

namespace Expr

variable {e : Expr} {slot : Slot}

/-! ## Parentheses that are needed -/

/-- The opening parentheses that are part of an expression itself. -/
def ownParens : Expr → Nat
  | .call _ _ _ => 1
  | _ => 0

/-- The opening parenthesis before an expression of which a grade is demanded. -/
def paren (e : Expr) (demanded : Nat) : Nat :=
  if e.grade < demanded then 1 else 0

/-- How many opening parentheses it takes to write an operation with its groups. -/
def parens (e : Expr) : Nat :=
  e.ownParens +
    (e.slots.attach.map fun slot => slot.1.inner.paren slot.1.demanded + slot.1.inner.parens).sum
termination_by sizeOf e
decreasing_by exact sizeOf_inner_lt slot.2

/-- How many opening parentheses it takes to write an operation where a grade is demanded. -/
def parensAt (e : Expr) (demanded : Nat) : Nat :=
  e.paren demanded + e.parens

theorem parens_eq (e : Expr) :
    e.parens =
      e.ownParens + (e.slots.map fun slot => slot.inner.parensAt slot.demanded).sum := by
  rw [parens]
  exact congrArg (fun counts : List Nat => e.ownParens + counts.sum)
    (List.attach_map_val (l := e.slots) (f := fun slot => slot.inner.parensAt slot.demanded))

/-- How many opening parentheses it takes to write expressions between commas. -/
def parensAll (es : List Expr) : Nat :=
  (es.map fun e => e.parensAt 1).sum

section Forms

variable (span : Span)

theorem parens_of_slots_eq_nil (hslots : e.slots = []) (hown : e.ownParens = 0) : e.parens = 0 := by
  rw [parens_eq, hslots, hown]
  rfl

theorem parens_items (es : List Expr) :
    ((es.map Slot.item).map fun slot => slot.inner.parensAt slot.demanded).sum = parensAll es := by
  rw [List.map_map]
  rfl

theorem parens_member (owner : Expr) (property : String) (propertySpan : Span) (isOptional : Bool) :
    (Expr.member owner property propertySpan isOptional span).parens = owner.parensAt 11 := by
  simp [parens_eq, slots, ownParens]

theorem parens_index (owner position : Expr) :
    (Expr.index owner position span).parens = owner.parensAt 11 + position.parensAt 0 := by
  simp [parens_eq, slots, ownParens]

theorem parens_call (callee : Expr) (args : List Expr) :
    (Expr.call callee args span).parens = 1 + (callee.parensAt 11 + parensAll args) := by
  rw [parens_eq, slots, List.map_cons, List.sum_cons, parens_items]
  rfl

theorem parens_update (op : UpdateOp) (leading : Bool) (target : Expr) :
    (Expr.update op leading target span).parens =
      target.parensAt (if leading then 10 else 11) := by
  simp [parens_eq, slots, ownParens]

theorem parens_binary (op : BinaryOp) (left right : Expr) :
    (Expr.binary op left right span).parens =
      left.parensAt (op.demand false) + right.parensAt (op.demand true) := by
  simp [parens_eq, slots, ownParens]

theorem parens_assign (op : AssignOp) (target value : Expr) :
    (Expr.assign op target value span).parens = target.parensAt 11 + value.parensAt 1 := by
  simp [parens_eq, slots, ownParens]

theorem parens_ternary (condition consequent alternate : Expr) :
    (Expr.ternary condition consequent alternate span).parens =
      condition.parensAt 2 + (consequent.parensAt 1 + alternate.parensAt 1) := by
  simp [parens_eq, slots, ownParens]

theorem parens_sequence (exprs : List Expr) :
    (Expr.sequence exprs span).parens = parensAll exprs := by
  rw [parens_eq, slots, parens_items]
  exact Nat.zero_add _

end Forms

theorem paren_of_le {demanded : Nat} (h : demanded ≤ e.grade) : e.paren demanded = 0 :=
  if_neg (Nat.not_lt.2 h)

theorem parensAt_of_le {demanded : Nat} (h : demanded ≤ e.grade) :
    e.parensAt demanded = e.parens := by
  rw [parensAt, paren_of_le h, Nat.zero_add]

theorem parensAt_le (e : Expr) (demanded : Nat) : e.parensAt demanded ≤ 1 + e.parens := by
  unfold parensAt paren
  split <;> omega

theorem parensAt_mono {bound demanded : Nat} (h : bound ≤ demanded) :
    e.parensAt bound ≤ e.parensAt demanded := by
  unfold parensAt paren
  split <;> split <;> omega

/-! ### Shapes -/

/-- A slot, and in it the shape of what stands there. -/
def Slot.shape (slot : Slot) : Slot :=
  { slot with inner := slot.inner.shape }

theorem grade_shape (e : Expr) : e.shape.grade = e.grade := by
  cases e <;> rfl

theorem isLoose_shape (e : Expr) : e.shape.isLoose = e.isLoose := by
  cases e <;> rfl

theorem isSequence_shape (e : Expr) : e.shape.isSequence = e.isSequence := by
  cases e <;> rfl

theorem needsGrouping_shape (op : BinaryOp) (isRight : Bool) (e : Expr) :
    e.shape.needsGrouping op isRight = e.needsGrouping op isRight := by
  cases e <;> rfl

theorem ownParens_shape (e : Expr) : e.shape.ownParens = e.ownParens := by
  cases e <;> rfl

theorem items_shapes (es : List Expr) :
    (shapes es).map Slot.item = (es.map Slot.item).map Slot.shape := by
  rw [shapes_eq_map, List.map_map, List.map_map]
  refine List.map_congr_left fun e _ => ?_
  rw [Function.comp_apply, Slot.item, isSequence_shape]
  rfl

theorem slots_shape (e : Expr) : e.shape.slots = e.slots.map Slot.shape := by
  cases e with
  | call | sequence =>
      simp only [Expr.shape, slots, items_shapes, isLoose_shape, Slot.shape, List.map_cons]
  | member | index | update | binary | assign | ternary =>
      simp only [Expr.shape, slots, isLoose_shape, needsGrouping_shape, Slot.shape, List.map_cons,
        List.map_nil]
  | _ => rfl

/-- The spans of an expression have no part in the parentheses that it needs. -/
theorem parens_shape (e : Expr) : e.shape.parens = e.parens := by
  rw [parens_eq, parens_eq e, ownParens_shape, slots_shape, List.map_map]
  refine congrArg (fun counts : List Nat => e.ownParens + counts.sum)
    (List.map_congr_left fun slot hslot => ?_)
  rw [Function.comp_apply, Slot.shape, parensAt, parensAt, paren, paren, grade_shape,
    parens_shape slot.inner]
termination_by sizeOf e
decreasing_by exact sizeOf_inner_lt hslot

/-! ## Parentheses that are put -/

variable {script : List Char}

/-- The text of a slot. -/
def Slot.text (slot : Slot) : List Char :=
  slot.inner.sided slot.grouped

theorem Slot.count_text (slot : Slot) :
    slot.text.count '(' = (if slot.grouped then 1 else 0) + slot.inner.render.toList.count '(' := by
  unfold Slot.text
  cases slot.grouped with
  | false => rw [sided_false, if_neg Bool.false_ne_true, Nat.zero_add]
  | true =>
      rw [sided_true, List.count_cons_self, List.count_append, if_pos rfl, Nat.add_comm 1]
      rfl

theorem count_itemized (es : List Expr) :
    (itemized es).count '(' = ((es.map Slot.item).map fun slot => slot.text.count '(').sum := by
  have hlisted : (listed es).count '(' =
      ((es.map Slot.item).map fun slot => slot.text.count '(').sum := by
    rw [listed, List.count_flatMap, List.map_map]
    refine congrArg List.sum (List.map_congr_left fun e _ => ?_)
    exact (List.count_cons_of_ne (by decide)).trans (List.count_cons_of_ne (by decide))
  cases es with
  | nil => rfl
  | cons e es =>
      rw [← hlisted, itemized, listed, listed, List.flatMap_cons, List.count_append,
        List.count_append]
      rfl

theorem count_name {name : List Char} (h : IsName name) : name.count '(' = 0 := by
  refine List.count_eq_zero.2 fun hmem => ?_
  have hchar := h.isNameChar hmem
  exact absurd hchar (by decide)

/-- The parentheses in the text of an operation are its own and those in its slots. -/
theorem count_render (hkind : e.isOperational = true) (hsound : (Phrase.expr e).Sound script) :
    e.render.toList.count '(' =
      e.ownParens + (e.slots.map fun slot => slot.text.count '(').sum := by
  have hread := hsound.isRead
  cases e with
  | ident name span =>
      rw [render, count_name (hsound.accepted name List.mem_cons_self).1]
      rfl
  | bool value span =>
      have htrue : IsName "true".toList := by decide
      have hfalse : IsName "false".toList := by decide
      cases value with
      | false => exact count_name hfalse
      | true => exact count_name htrue
  | null span =>
      have hnull : IsName "null".toList := by decide
      exact count_name hnull
  | member owner property propertySpan isOptional span =>
      rw [text_member]
      cases isOptional <;> simp [slots, ownParens, Slot.text, count_name hread]
  | index owner position span =>
      rw [text_index]
      simp [slots, ownParens, Slot.text, sided_false]
  | call callee args span =>
      rw [text_call, List.count_append, List.count_cons_self, List.count_append, count_itemized]
      simp [slots, ownParens, Slot.text]
      omega
  | update op leading target span =>
      rw [text_update]
      cases leading <;> cases op <;> simp [slots, ownParens, Slot.text, UpdateOp.symbol]
  | binary op left right span =>
      rw [text_binary]
      have hsymbol : op.symbol.toList.count '(' = 0 := by cases op <;> decide
      simp [slots, ownParens, Slot.text, hsymbol]
  | assign op target value span =>
      rw [text_assign]
      have hsymbol : op.symbol.toList.count '(' = 0 := by cases op <;> decide
      simp [slots, ownParens, Slot.text, hsymbol]
  | ternary condition consequent alternate span =>
      rw [text_ternary]
      simp [slots, ownParens, Slot.text]
  | sequence exprs span =>
      rw [text_sequence, count_itemized]
      exact (Nat.zero_add _).symm
  | _ => contradiction

theorem grade_lt_of_isLoose (h : e.isLoose = true) (hkind : e.isOperational = true) :
    e.grade < 10 := by
  cases e with
  | binary op =>
      exact Nat.add_lt_add_right (Nat.lt_succ_of_le op.precedence_bounds.2) 1
  | ternary | assign | sequence => exact Nat.lt_of_sub_pos (Nat.succ_pos _)
  | _ => contradiction

theorem grade_lt_of_isSequence (h : e.isSequence = true) : e.grade < 1 := by
  cases e with
  | sequence => exact Nat.one_pos
  | _ => contradiction

theorem grade_lt_of_needsGrouping {op : BinaryOp} {isRight : Bool}
    (h : e.needsGrouping op isRight = true) : e.grade < op.demand isRight := by
  obtain ⟨hdemand, -⟩ := op.demand_bounds isRight
  cases e with
  | binary inner =>
      change inner.precedence + 1 < op.demand isRight
      simp only [needsGrouping, Bool.or_eq_true, Bool.and_eq_true, decide_eq_true_eq] at h
      rcases h with hlt | ⟨heq, hside⟩
      · omega
      · rw [BinaryOp.demand, if_pos hside]
        omega
  | ternary | assign | function =>
      exact Nat.lt_of_le_of_lt op.precedence_bounds.1 hdemand
  | _ => contradiction

/-- What an operation has in parentheses is of a lower grade than is demanded there. -/
theorem grade_lt_of_grouped (h : slot ∈ e.slots) (hkind : slot.inner.isOperational = true)
    (hgrouped : slot.grouped = true) : slot.inner.grade < slot.demanded := by
  have hitems {es : List Expr} (h : slot ∈ es.map .item) : slot.inner.grade < slot.demanded := by
    obtain ⟨inner, -, rfl⟩ := List.mem_map.1 h
    exact grade_lt_of_isSequence hgrouped
  cases e with
  | member =>
      obtain rfl := List.mem_singleton.1 h
      exact Nat.lt_succ_of_lt (grade_lt_of_isLoose hgrouped hkind)
  | index owner position span =>
      rcases List.mem_cons.1 h with rfl | hposition
      · exact Nat.lt_succ_of_lt (grade_lt_of_isLoose hgrouped hkind)
      · obtain rfl := List.mem_singleton.1 hposition
        contradiction
  | call callee args span =>
      rcases List.mem_cons.1 h with rfl | hargs
      · exact Nat.lt_succ_of_lt (grade_lt_of_isLoose hgrouped hkind)
      · exact hitems hargs
  | update op leading target span =>
      obtain rfl := List.mem_singleton.1 h
      refine Nat.lt_of_lt_of_le (grade_lt_of_isLoose hgrouped hkind) ?_
      dsimp only
      split <;> decide
  | sequence exprs span => exact hitems h
  | binary op left right span =>
      rcases List.mem_cons.1 h with rfl | hright
      · exact grade_lt_of_needsGrouping hgrouped
      · obtain rfl := List.mem_singleton.1 hright
        exact grade_lt_of_needsGrouping hgrouped
  | assign | ternary =>
      simp only [slots, List.mem_cons, List.not_mem_nil, or_false] at h
      rcases h with rfl | rfl | rfl <;> contradiction
  | _ => exact absurd h List.not_mem_nil

/-- A slot in which no parentheses stand in vain has no more of them than it needs, and holds if it
has all of them. -/
theorem Slot.count_le (h : slot.grouped = true → slot.inner.grade < slot.demanded)
    (hinner : slot.inner.render.toList.count '(' ≤ slot.inner.parens) :
    slot.text.count '(' ≤ slot.inner.parensAt slot.demanded := by
  rw [Slot.count_text, parensAt, paren]
  refine Nat.add_le_add ?_ hinner
  cases hgrouped : slot.grouped with
  | false => exact Nat.zero_le _
  | true => rw [if_pos rfl, if_pos (h hgrouped)]

theorem Slot.holds_of_le (h : slot.grouped = true → slot.inner.grade < slot.demanded)
    (hinner : slot.inner.render.toList.count '(' ≤ slot.inner.parens)
    (hparens : slot.inner.parensAt slot.demanded ≤ slot.text.count '(') :
    slot.Holds ∧ slot.inner.parens ≤ slot.inner.render.toList.count '(' := by
  rw [Slot.count_text, parensAt, paren] at hparens
  cases hgrouped : slot.grouped with
  | true =>
      rw [hgrouped, if_pos rfl, if_pos (h hgrouped)] at hparens
      exact ⟨.inl hgrouped, Nat.le_of_add_le_add_left hparens⟩
  | false =>
      rw [hgrouped, if_neg Bool.false_ne_true] at hparens
      by_cases hgrade : slot.inner.grade < slot.demanded
      · rw [if_pos hgrade] at hparens
        omega
      · exact ⟨.inr (Nat.not_lt.1 hgrade), by omega⟩

/-- An operation of a script has no more parentheses in its text than it needs. -/
theorem IsOperation.count_le_parens (h : e.IsOperation)
    (hsound : (Phrase.expr e).Everywhere (Phrase.Sound script)) :
    e.render.toList.count '(' ≤ e.parens := by
  induction h with
  | @intro e here inside ih =>
      rw [count_render here hsound.here, parens_eq]
      refine Nat.add_le_add_left (List.sum_le_sum fun slot hslot => ?_) _
      exact slot.count_le (grade_lt_of_grouped hslot (inside slot hslot).here)
        (ih slot hslot (hsound.inside _ (inner_mem_children hslot)))

/-- An operation of a script that has all the parentheses that it needs keeps its groups. -/
theorem IsOperation.keepsGroups_of_parens_le (h : e.IsOperation)
    (hsound : (Phrase.expr e).Everywhere (Phrase.Sound script))
    (hparens : e.parens ≤ e.render.toList.count '(') : e.KeepsGroups := by
  induction h with
  | @intro e here inside ih =>
      rw [count_render here hsound.here, parens_eq] at hparens
      have hinner : ∀ slot ∈ e.slots, (Phrase.expr slot.inner).Everywhere (Phrase.Sound script) :=
        fun slot hslot => hsound.inside _ (inner_mem_children hslot)
      have hcount : ∀ slot ∈ e.slots, slot.inner.render.toList.count '(' ≤ slot.inner.parens :=
        fun slot hslot => (inside slot hslot).count_le_parens (hinner slot hslot)
      have hminimal : ∀ slot ∈ e.slots,
          slot.grouped = true → slot.inner.grade < slot.demanded :=
        fun slot hslot => grade_lt_of_grouped hslot (inside slot hslot).here
      have hle : ∀ slot ∈ e.slots, slot.text.count '(' ≤ slot.inner.parensAt slot.demanded :=
        fun slot hslot => slot.count_le (hminimal slot hslot) (hcount slot hslot)
      -- there are enough in all slots together and too many in none, so that each has enough
      have hall : ∀ slot ∈ e.slots, slot.inner.parensAt slot.demanded ≤ slot.text.count '(' := by
        intro slot hslot
        by_contra hlt
        have hsum := List.sum_lt_sum _ _ hle ⟨slot, hslot, Nat.lt_of_not_le hlt⟩
        omega
      have hholds : ∀ slot ∈ e.slots,
          slot.Holds ∧ slot.inner.parens ≤ slot.inner.render.toList.count '(' := fun slot hslot =>
        slot.holds_of_le (hminimal slot hslot) (hcount slot hslot) (hall slot hslot)
      exact .intro (fun slot hslot => (hholds slot hslot).1) fun slot hslot =>
        ih slot hslot (hinner slot hslot) (hholds slot hslot).2

end Expr

end EventLoop.Script
