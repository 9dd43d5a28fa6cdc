import EventLoop.Proofs.Script.Grouped
import EventLoop.Proofs.Script.Placed

/-!
# The slots of operations

The slots of an operation (`Expr.slots`) are the places in it where other expressions stand.  A slot
demands a grade of what stands in it, and rendering puts what stands there in parentheses or not.

The text of an operation keeps its groups (`Expr.KeepsGroups`) if in every slot, at any depth, what
binds more loosely than is demanded there stands in parentheses.  In a script the names are names
and there is more than one expression in a list with commas, so that operations that keep their
groups are grouped expressions (`IsOperation.isGrouped`).
-/

namespace EventLoop.Script

namespace Expr

/-- A place in an expression where another one stands: in parentheses or not, and where it should
be of a grade. -/
structure Slot where
  inner : Expr
  grouped : Bool
  demanded : Nat

/-- What stands in a slot is of the grade that is demanded, or stands in parentheses. -/
def Slot.Holds (slot : Slot) : Prop :=
  slot.inner.Stands slot.grouped slot.demanded

/-- A slot between commas. -/
def Slot.item (e : Expr) : Slot :=
  ⟨e, e.isSequence, 1⟩

/-- The slots of an operation, in the order of its text. -/
def slots : Expr → List Slot
  | .member owner _ _ _ _ => [⟨owner, owner.isLoose, 11⟩]
  | .index owner position _ => [⟨owner, owner.isLoose, 11⟩, ⟨position, false, 0⟩]
  | .call callee args _ => ⟨callee, callee.isLoose, 11⟩ :: args.map .item
  | .update _ leading target _ => [⟨target, target.isLoose, if leading then 10 else 11⟩]
  | .binary op left right _ =>
    [⟨left, left.needsGrouping op false, op.demand false⟩,
     ⟨right, right.needsGrouping op true, op.demand true⟩]
  | .assign _ target value _ => [⟨target, false, 11⟩, ⟨value, false, 1⟩]
  | .ternary condition consequent alternate _ =>
    [⟨condition, false, 2⟩, ⟨consequent, false, 1⟩, ⟨alternate, false, 1⟩]
  | .sequence exprs _ => exprs.map .item
  | _ => []

/-- The kinds of expressions of which operations are made. -/
def isOperational : Expr → Bool
  | .ident _ _ | .bool _ _ | .null _ | .member _ _ _ _ _ | .index _ _ _ | .call _ _ _
  | .update _ _ _ _ | .binary _ _ _ _ | .assign _ _ _ _ | .ternary _ _ _ _ | .sequence _ _ => true
  | _ => false

/-- An expression of names, truth values, accesses, calls, counters, binary operators, assignments,
conditions and lists with commas. -/
inductive IsOperation : Expr → Prop where
  | intro {e : Expr} (here : e.isOperational = true)
      (inside : ∀ slot ∈ e.slots, IsOperation slot.inner) : IsOperation e

/-- In every slot of an expression, at any depth, stands what is of the grade that is demanded
there, or it stands in parentheses. -/
inductive KeepsGroups : Expr → Prop where
  | intro {e : Expr} (here : ∀ slot ∈ e.slots, slot.Holds)
      (inside : ∀ slot ∈ e.slots, KeepsGroups slot.inner) : KeepsGroups e

variable {e : Expr} {slot : Slot}

theorem IsOperation.here (h : e.IsOperation) : e.isOperational = true := by
  cases h with
  | intro here _ => exact here

theorem sizeOf_inner_lt (h : slot ∈ e.slots) : sizeOf slot.inner < sizeOf e := by
  have hitems {es : List Expr} (h : slot ∈ es.map .item) : sizeOf slot.inner < sizeOf es := by
    obtain ⟨inner, hinner, rfl⟩ := List.mem_map.1 h
    exact List.sizeOf_lt_of_mem hinner
  cases e with
  | call callee args span =>
      rw [slots] at h
      rcases List.mem_cons.1 h with rfl | hargs
      · rw [Expr.call.sizeOf_spec]
        exact Nat.lt_add_right _ (Nat.lt_add_right _ (Nat.lt_add_of_pos_left Nat.one_pos))
      · have := hitems hargs
        rw [Expr.call.sizeOf_spec]
        omega
  | sequence exprs span =>
      have := hitems h
      rw [Expr.sequence.sizeOf_spec]
      omega
  | member | index | update | binary | assign | ternary =>
      simp only [slots, List.mem_cons, List.not_mem_nil, or_false] at h
      rcases h with rfl | rfl | rfl <;> simp +arith
  | _ => exact absurd h List.not_mem_nil

/-- What stands in the slots of an expression are phrases that it consists of. -/
theorem inner_mem_children (h : slot ∈ e.slots) :
    .expr slot.inner ∈ (Phrase.expr e).children := by
  have hitems {es : List Expr} (h : slot ∈ es.map .item) :
      Phrase.expr slot.inner ∈ es.map Phrase.expr := by
    obtain ⟨inner, hinner, rfl⟩ := List.mem_map.1 h
    exact List.mem_map_of_mem hinner
  cases e with
  | call callee args span =>
      rcases List.mem_cons.1 h with rfl | hargs
      · exact List.mem_cons_self
      · exact List.mem_cons_of_mem _ (hitems hargs)
  | sequence exprs span => exact hitems h
  | member | index | update | binary | assign | ternary =>
      simp only [slots, List.mem_cons, List.not_mem_nil, or_false] at h
      rcases h with rfl | rfl | rfl <;> simp [Phrase.children, Phrase.childrenOfExpr]
  | _ => exact absurd h List.not_mem_nil

/-! ## Which slots hold -/

/-- Nothing loses its group between commas. -/
theorem holds_item (e : Expr) : (Slot.item e).Holds := by
  cases hsequence : e.isSequence with
  | true => exact .inl hsequence
  | false => exact .inr (one_le_grade_iff.2 hsequence)

/-- What loses its group before an access, a call or a counter are other counters. -/
theorem holds_operand_iff (e : Expr) :
    Slot.Holds ⟨e, e.isLoose, 11⟩ ↔
      ∀ op leading target span, e ≠ .update op leading target span := by
  cases e with
  | update => exact iff_of_false (Or.rec nofun nofun) fun h => h _ _ _ _ rfl
  | binary | ternary | assign | function | await | unary | sequence =>
      exact iff_of_true (.inl rfl) nofun
  | _ => exact iff_of_true (.inr (Nat.le_refl 11)) nofun

/-- What loses its group at a side of a binary operator are lists with commas. -/
theorem holds_side_iff (e : Expr) (op : BinaryOp) (isRight : Bool) :
    Slot.Holds ⟨e, e.needsGrouping op isRight, op.demand isRight⟩ ↔ e.isSequence = false := by
  refine ⟨fun h => one_le_grade_iff.1 ?_, fun h => stands_side (one_le_grade_iff.2 h) op isRight⟩
  obtain ⟨hdemand, -⟩ := op.demand_bounds isRight
  rcases h with hgrouped | hgrade
  · cases e <;> first | contradiction | exact Nat.succ_pos _
  · exact Nat.le_trans (Nat.succ_le_of_lt (Nat.zero_lt_of_lt hdemand)) hgrade

/-! ## Operations of a script -/

variable {script : List Char}

/-- An operation of a script that keeps its groups is grouped. -/
theorem IsOperation.isGrouped (h : e.IsOperation)
    (hsound : (Phrase.expr e).Everywhere (Phrase.Sound script)) (hkeeps : e.KeepsGroups) :
    e.IsGrouped := by
  induction h with
  | @intro e here _ ih =>
      obtain ⟨holds, hkept⟩ := hkeeps
      have hgrouped : ∀ slot ∈ e.slots, slot.inner.IsGrouped := fun slot hslot =>
        ih slot hslot (hsound.inside _ (inner_mem_children hslot)) (hkept slot hslot)
      have hread := hsound.here.isRead
      cases e with
      | ident name span => exact .ident (hsound.here.accepted name List.mem_cons_self) span
      | bool value span => exact .bool value span
      | null span => exact .null span
      | member owner property propertySpan isOptional span =>
          exact .member (hgrouped _ List.mem_cons_self) (holds _ List.mem_cons_self) hread _ _ _
      | index owner position span =>
          obtain ⟨howner, hposition⟩ := List.forall_mem_cons.1 hgrouped
          exact .index howner (holds _ List.mem_cons_self) (hposition _ List.mem_cons_self) span
      | call callee args span =>
          obtain ⟨hcallee, hargs⟩ := List.forall_mem_cons.1 hgrouped
          exact .call hcallee (holds _ List.mem_cons_self) (fun arg harg =>
            hargs _ (List.mem_map_of_mem harg)) span
      | update op leading target span =>
          exact .update op (hgrouped _ List.mem_cons_self) (holds _ List.mem_cons_self) span
      | binary op left right span =>
          obtain ⟨hleft, hright⟩ := List.forall_mem_cons.1 hgrouped
          obtain ⟨hstands, hrightStands⟩ := List.forall_mem_cons.1 holds
          exact .binary op hleft (hright _ List.mem_cons_self) hstands
            (hrightStands _ List.mem_cons_self) span
      | assign op target value span =>
          obtain ⟨htarget, hvalue⟩ := List.forall_mem_cons.1 hgrouped
          obtain ⟨hstands, hvalueStands⟩ := List.forall_mem_cons.1 holds
          exact .assign op htarget (hvalue _ List.mem_cons_self) hstands
            (hvalueStands _ List.mem_cons_self) span
      | ternary condition consequent alternate span =>
          obtain ⟨hcondition, hbranches⟩ := List.forall_mem_cons.1 hgrouped
          obtain ⟨hconsequent, halternate⟩ := List.forall_mem_cons.1 hbranches
          obtain ⟨hstands, hbranchesStand⟩ := List.forall_mem_cons.1 holds
          obtain ⟨hconsequentStands, halternateStands⟩ := List.forall_mem_cons.1 hbranchesStand
          exact .ternary hcondition hconsequent (halternate _ List.mem_cons_self) hstands
            hconsequentStands (halternateStands _ List.mem_cons_self) span
      | sequence exprs span =>
          exact .sequence (fun e he => hgrouped _ (List.mem_map_of_mem he)) hread span
      | _ => contradiction

end Expr

end EventLoop.Script
