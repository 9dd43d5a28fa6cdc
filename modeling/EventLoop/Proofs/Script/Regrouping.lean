import EventLoop.Proofs.Script.RoundTrip
import EventLoop.Proofs.Script.Written

/-!
# Operations that lose their groups

An operation of a script reads back if and only if its text keeps its groups
(`readsBack_iff_keepsGroups`).  If it does, then it is a grouped expression.  If it does not, then
its text has not all the opening parentheses that it takes to write it, and a script has no
expressions without these.

Lists with commas are put in parentheses between commas and before accesses, calls and counters, but
not at the sides of binary operators.  Counters are put in parentheses nowhere, and nothing is in
conditions and assignments.  So `(a, b) + c` becomes `a, b + c`, which is read as two expressions
with a comma between (`sum_of_sequence_regrouped`).
-/

namespace EventLoop.Script

/-! ## Shapes of operations -/

namespace Expr

variable {e value : Expr}

theorem isOperational_shape (e : Expr) : e.shape.isOperational = e.isOperational := by
  cases e <;> rfl

/-- Expressions of one shape have the same slots, but for the spans of what stands there. -/
theorem exists_slot_of_shape_eq (h : value.shape = e.shape) {slot : Slot}
    (hslot : slot ∈ value.slots) :
    ∃ other ∈ e.slots, slot.inner.shape = other.inner.shape ∧ slot.grouped = other.grouped ∧
      slot.demanded = other.demanded := by
  have hmem : slot.shape ∈ e.slots.map Slot.shape := by
    rw [← slots_shape, ← h, slots_shape]
    exact List.mem_map_of_mem hslot
  obtain ⟨other, hother, heq⟩ := List.mem_map.1 hmem
  obtain ⟨hinner, hgrouped, hdemanded⟩ := Slot.mk.inj heq
  exact ⟨other, hother, hinner.symm, hgrouped.symm, hdemanded.symm⟩

theorem IsOperation.of_shape (he : e.IsOperation) (h : value.shape = e.shape) :
    value.IsOperation := by
  induction he generalizing value with
  | @intro e here _ ih =>
      refine .intro ?_ fun slot hslot => ?_
      · rw [← isOperational_shape, h, isOperational_shape, here]
      · obtain ⟨other, hother, hinner, -, -⟩ := exists_slot_of_shape_eq h hslot
        exact ih other hother hinner

theorem KeepsGroups.of_shape (he : e.KeepsGroups) (h : value.shape = e.shape) :
    value.KeepsGroups := by
  induction he generalizing value with
  | @intro e here _ ih =>
      refine .intro (fun slot hslot => ?_) fun slot hslot => ?_
      · obtain ⟨other, hother, hinner, hgrouped, hdemanded⟩ := exists_slot_of_shape_eq h hslot
        have holds := here other hother
        unfold Slot.Holds Stands at holds ⊢
        rwa [hgrouped, hdemanded, ← grade_shape, hinner, grade_shape]
      · obtain ⟨other, hother, hinner, -, -⟩ := exists_slot_of_shape_eq h hslot
        exact ih other hother hinner

end Expr

/-! ## Operations that read back -/

/-- An operation of a script reads back if and only if it keeps its groups. -/
theorem Expr.IsOperation.readsBack_iff {e : Expr} (h : e.IsOperation) {script : List Char}
    (hsound : (Phrase.expr e).Everywhere (Phrase.Sound script)) :
    e.ReadsBack ↔ e.KeepsGroups := by
  refine ⟨?_, fun hkeeps => readsBack_of_isGrouped (h.isGrouped hsound hkeeps)⟩
  rintro ⟨value, span, whole, hparse, hshape⟩
  have hwritten := parens_le_count hparse List.mem_cons_self
  rw [← value.parens_shape, hshape, e.parens_shape] at hwritten
  exact h.keepsGroups_of_parens_le hsound hwritten

/-- **An operation of a script reads back exactly if its text keeps its groups.**  So it reads back
if in every place in it, at any depth, what binds more loosely than is demanded there is rendered in
parentheses, and never else. -/
theorem readsBack_iff_keepsGroups {source : String} {program : Program}
    (h : parse source = .ok program) :
    program.Everywhere fun phrase => ∀ e, phrase = .expr e → e.IsOperation →
      (e.ReadsBack ↔ e.KeepsGroups) := by
  intro stmt hstmt
  have hsound := (placed_parse h).1.sound (.stmt stmt) (List.mem_map_of_mem hstmt)
  refine hsound.everywhere.imp fun phrase hphrase e heq he => ?_
  rw [heq] at hphrase
  exact he.readsBack_iff hphrase

theorem Expr.IsOperation.ident (name : String) : (Expr.ident name .zero).IsOperation :=
  .intro rfl nofun

theorem Expr.KeepsGroups.ident (name : String) : (Expr.ident name .zero).KeepsGroups :=
  .intro nofun nofun

/-- A condition with a counter and a list with commas, which stands in parentheses. -/
theorem readsBack_condition :
    let list := Expr.sequence [.ident "c" .zero, .ident "d" .zero] .zero
    let condition := Expr.ternary (.ident "a" .zero)
      (.update .increment false (.ident "b" .zero) .zero) (.member list "e" .zero false .zero) .zero
    ∃ program value span, parse "a ? b++ : (c, d).e" = .ok program ∧
      program.body = [.exprStmt value span] ∧ value.shape = condition.shape ∧
      value.IsOperation ∧ value.KeepsGroups ∧ value.ReadsBack := by
  intro list condition
  have hname {name : String} (h : IsIdentifier name) : (Expr.ident name .zero).IsGrouped :=
    .ident h.accepted .zero
  have hlist : list.IsGrouped ∧ list.IsOperation ∧ list.KeepsGroups := by
    refine ⟨.sequence ?_ (by decide) .zero, .intro rfl ?_, .intro ?_ ?_⟩
    · exact List.forall_mem_cons.2
        ⟨hname (by decide), List.forall_mem_singleton.2 (hname (by decide))⟩
    · exact List.forall_mem_cons.2 ⟨.ident "c", List.forall_mem_singleton.2 (.ident "d")⟩
    · exact List.forall_mem_map.2 fun e _ => Expr.holds_item e
    · exact List.forall_mem_cons.2 ⟨.ident "c", List.forall_mem_singleton.2 (.ident "d")⟩
  obtain ⟨hlistGrouped, hlistOperation, hlistKept⟩ := hlist
  have hgrouped : condition.IsGrouped := by
    refine .ternary (hname (by decide)) (.update .increment (hname (by decide)) ?_ .zero)
      (.member hlistGrouped (.inl rfl) (by decide) .zero false .zero) ?_ ?_ ?_ .zero
    all_goals exact .inr (by decide)
  have hoperation : condition.IsOperation := by
    refine .intro rfl (List.forall_mem_cons.2 ⟨.ident "a", List.forall_mem_cons.2 ⟨?_, ?_⟩⟩)
    · exact .intro rfl (List.forall_mem_singleton.2 (.ident "b"))
    · exact List.forall_mem_singleton.2 (.intro rfl (List.forall_mem_singleton.2 hlistOperation))
  have hkept : condition.KeepsGroups := by
    refine .intro (List.forall_mem_cons.2 ⟨?_, List.forall_mem_cons.2 ⟨?_, ?_⟩⟩)
      (List.forall_mem_cons.2 ⟨.ident "a", List.forall_mem_cons.2 ⟨.intro ?_ ?_, ?_⟩⟩)
    · exact .inr (by decide)
    · exact .inr (by decide)
    · exact List.forall_mem_singleton.2 (.inr (by decide))
    · exact List.forall_mem_singleton.2 (.inr (by decide))
    · exact List.forall_mem_singleton.2 (.ident "b")
    · refine List.forall_mem_singleton.2 (.intro ?_ (List.forall_mem_singleton.2 hlistKept))
      exact List.forall_mem_singleton.2 (.inl rfl)
  obtain ⟨value, span, whole, hparse, hshape⟩ := readsBack_of_isGrouped hgrouped
  have hrender : condition.render = "a ? b++ : (c, d).e" := by cbv
  rw [hrender] at hparse
  have hvalue := hoperation.of_shape hshape
  have hvalueKept := hkept.of_shape hshape
  have hstmt := readsBack_iff_keepsGroups hparse (.exprStmt value span) List.mem_cons_self
  have hexpr := (hstmt.inside (.expr value) List.mem_cons_self).here value rfl hvalue
  exact ⟨_, value, span, hparse, rfl, hshape, hvalue, hvalueKept, hexpr.2 hvalueKept⟩

/-- The names in a script that adds a name to a list of two names. -/
def namesOfSum? (source : String) : Option (String × String × String) :=
  match parse source with
  | .ok ⟨[.exprStmt (.binary .add (.sequence [.ident a _, .ident b _] _) (.ident c _) _) _], _⟩ =>
    some (a, b, c)
  | _ => none

theorem parse_of_namesOfSum? {source a b c : String} (h : namesOfSum? source = some (a, b, c)) :
    let sum := Expr.binary .add (.sequence [.ident a .zero, .ident b .zero] .zero)
      (.ident c .zero) .zero
    ∃ value span whole, parse source = .ok ⟨[.exprStmt value span], whole⟩ ∧
      value.shape = sum.shape ∧ value.render = sum.render := by
  unfold namesOfSum? at h
  split at h
  · rename_i hparse
    obtain ⟨rfl, rfl, rfl⟩ := Option.some.inj h
    exact ⟨_, _, _, hparse, rfl, rfl⟩
  · contradiction

/-- A list with commas at a side of a sum is not rendered in parentheses. -/
theorem sum_of_sequence_regrouped :
    let sum := Expr.binary .add (.sequence [.ident "a" .zero, .ident "b" .zero] .zero)
      (.ident "c" .zero) .zero
    ∃ program value span, parse "(a, b) + c" = .ok program ∧
      program.body = [.exprStmt value span] ∧ value.shape = sum.shape ∧ value.IsOperation ∧
      value.render = "a, b + c" ∧ ¬ value.ReadsBack := by
  intro sum
  have hoperation : sum.IsOperation := by
    refine .intro rfl (List.forall_mem_cons.2 ⟨.intro rfl ?_, ?_⟩)
    · exact List.forall_mem_cons.2 ⟨.ident "a", List.forall_mem_singleton.2 (.ident "b")⟩
    · exact List.forall_mem_singleton.2 (.ident "c")
  have hnames : namesOfSum? "(a, b) + c" = some ("a", "b", "c") := by decide +kernel
  obtain ⟨value, span, whole, hparse, hshape, hrender⟩ := parse_of_namesOfSum? hnames
  have hvalue := hoperation.of_shape hshape
  have hsound := (placed_parse hparse).1.sound (.stmt (.exprStmt value span)) List.mem_cons_self
  have hexpr := hsound.inside (.expr value) List.mem_cons_self
  refine ⟨_, value, span, hparse, rfl, hshape, hvalue, by rw [hrender]; cbv, ?_⟩
  rw [hvalue.readsBack_iff hexpr]
  intro hkept
  obtain ⟨here, -⟩ := hkept.of_shape hshape.symm
  have hside := here _ List.mem_cons_self
  rw [Expr.holds_side_iff] at hside
  exact Bool.false_ne_true hside.symm

end EventLoop.Script
