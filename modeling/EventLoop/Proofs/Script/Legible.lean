import EventLoop.Proofs.Script.Detour
import EventLoop.Proofs.Script.Level

/-!
# Grouped expressions are legible

A grouped expression is read back wherever it is rendered (`IsGrouped.legible`).  What is demanded of
the parts of a grouped expression and the levels of the grammar agree: a part that stands without
parentheses binds tightly enough to be read by the rule that is tried there, and one in
parentheses is read by all rules.

What is proved of all grouped expressions, by induction on them, is that they are `Legible`: each
rule that reads a part of a larger expression reads the expression too, and what is tried on it
before is refused, or halts where no larger expression needs it.
-/

namespace EventLoop.Script

open Peg

variable {map : LineMap} {e inner : Expr} {place after : Cursor} {f : Peg.Expr Rule}

/-! ## Levels -/

/-- The level of the rule that reads an operation: the precedence of a binary operator, and more
for all that binds more tightly. -/
def Expr.level (e : Expr) : Nat :=
  min (e.grade - 1) 9

theorem Expr.level_binary (op : BinaryOp) (left right : Expr) (span : Span) :
    (Expr.binary op left right span).level = op.precedence := by
  have hbounds := op.precedence_bounds
  rw [level, grade]
  omega

/-- What binds as tightly as a binary operator is read by a rule for binary operators, or for
operands of these. -/
theorem Expr.level_bounds (h : 2 ≤ e.grade) : 0 < e.level ∧ e.level ≤ 9 := by
  unfold level
  omega

/-- What is of a demanded grade is read by a rule for operators of that grade. -/
theorem Expr.le_level {bound : Nat} (hbound : bound ≤ 9) (h : bound + 1 ≤ e.grade) :
    bound ≤ e.level := by
  unfold level
  omega

theorem Expr.sided_eq_item (h : e.isSequence = false) : e.sided false = e.item := by
  rw [item, h]

/-! ## What reads a grouped expression -/

variable (map) in
/-- Wherever an expression stands, perhaps as a part of a larger one, it is read back. -/
structure Legible (e : Expr) : Prop where
  grouped : e.IsGrouped
  /-- As an operand with accesses and calls behind it. -/
  chain : 11 ≤ e.grade → ∀ {place after : Cursor}, place.drop? e.render.toList = some after →
    startsInName after.rest = false → Chain map trailers e place after
  /-- As an operand with operators of its precedence behind it. -/
  rounds : 2 ≤ e.grade → e.level ≤ 7 → ∀ {place after : Cursor},
    place.drop? e.render.toList = some after → Follows (ends (e.level + 1)) after →
    Chain map (operandsAt e.level) e place after
  /-- By the rule for operators of its precedence. -/
  reads : 2 ≤ e.grade → ∀ {place after : Cursor}, place.drop? e.render.toList = some after →
    Follows (ends e.level) after → Reads map (rung e.level) e place after
  /-- It is not the target of an assignment. -/
  unassigned : 2 ≤ e.grade → ∀ {place after : Cursor}, place.drop? e.render.toList = some after →
    Follows (ends 9) after → Derives grammar .spaced (.rule .assignment) place none
  /-- As a value, between commas. -/
  readable : Readable map e
  /-- In brackets, or alone in a text. -/
  alone : ReadableAlone map e
  /-- What is tried on it halts, also in parentheses and where an element of a pattern is tried. -/
  halts : e.isSequence = false → ∀ f ∈ detours, HaltsAt f e
  encloses : Encloses parenParams e
  tried : Tried .bindingElement e
  /-- It is no label. -/
  unlabeled : ∀ {place after : Cursor}, place.drop? e.render.toList = some after →
    Follows brackets after → Derives grammar .spaced (.rule .labeledStmt) place none

namespace Legible

/-- In parentheses a legible expression is an operand. -/
theorem group (h : Legible map e) (hdrop : place.drop? (e.sided true) = some after) :
    Chain map trailers e place after :=
  .of_reads (reads_group h.grouped h.alone hdrop)

/-- An operand before an access or a call, or behind a sign. -/
theorem operand (h : Legible map e) {grouped : Bool} (hstands : e.Stands grouped 11)
    (hdrop : place.drop? (e.sided grouped) = some after) (hword : startsInName after.rest = false) :
    Chain map trailers e place after := by
  cases grouped with
  | true => exact h.group hdrop
  | false => exact h.chain (hstands.resolve_left nofun) hdrop hword

/-- An operand with which an expression starts. -/
theorem before (h : Legible map e) {whole : Expr} {grouped : Bool} (hstands : e.Stands grouped 11)
    {behind : List Char} (hextends : whole.Extends e grouped behind)
    (hdrop : place.drop? whole.render.toList = some after) :
    ∃ middle, Chain map trailers e place middle ∧ middle.drop? behind = some after := by
  rw [hextends.text] at hdrop
  obtain ⟨middle, howner, hbehind⟩ := Cursor.drop?_append_eq_some hdrop
  exact ⟨middle, h.operand hstands howner (hextends.goes hbehind).word, hbehind⟩

/-- An operand behind a sign is read by the rule for signs. -/
theorem behind (h : Legible map e) {grouped : Bool} (hstands : e.Stands grouped 11)
    (hdrop : place.drop? (e.sided grouped) = some after) (hfollows : Follows (ends 9) after) :
    ∃ start ∈ operandStarts, start.At place ∧ Reads map .unaryExpr e place after := by
  obtain ⟨start, hmem, hat⟩ := h.grouped.operand_start hstands hdrop hfollows.word
  exact ⟨start, hmem, hat, (h.operand hstands hdrop hfollows.word).unaryExpr hmem hat hfollows⟩

/-- A part that stands where a grade is demanded is read by the rule for that grade. -/
theorem side (h : Legible map e) {grouped : Bool} {bound : Nat} (hpos : 0 < bound)
    (hbound : bound ≤ 9) (hstands : e.Stands grouped (bound + 1)) (hdrop : place.drop? (e.sided grouped) = some after)
    (hfollows : Follows (ends bound) after) : Reads map (rung bound) e place after := by
  cases grouped with
  | true =>
      have hat : (Start.text ['(']).At place := by
        rw [Expr.sided_true] at hdrop
        exact Start.at_text rfl hdrop
      have hunary : Reads map (rung 9) e place after :=
        (h.group hdrop).unaryExpr (by decide) hat (hfollows.mono (ends_subset hbound))
      exact hunary.lower hpos hbound (Nat.le_refl 9) hfollows
  | false =>
      have hgrade : bound + 1 ≤ e.grade := hstands.resolve_left nofun
      have hlevel := Expr.le_level hbound hgrade
      have hreads := h.reads (by omega) hdrop (hfollows.mono (ends_subset hlevel))
      exact hreads.lower hpos hlevel (Expr.level_bounds (by omega)).2 hfollows

/-- An operand at the left of a binary operator is read with operators of the same precedence
behind it. -/
theorem leftSide (h : Legible map e) {grouped : Bool} {bound : Nat} (hpos : 0 < bound)
    (hbound : bound ≤ 7) (hstands : e.Stands grouped (bound + 1))
    (hdrop : place.drop? (e.sided grouped) = some after)
    (hfollows : Follows (ends (bound + 1)) after) :
    Chain map (operandsAt bound) e place after := by
  -- an operation of the same precedence is the beginning of the row, not an operand of it
  by_cases hsame : grouped = false ∧ e.level = bound
  · obtain ⟨rfl, rfl⟩ := hsame
    have hgrade := hstands.resolve_left nofun
    exact h.rounds (by omega) hbound hdrop hfollows
  · have hfurther : e.Stands grouped (bound + 1 + 1) := by
      cases grouped with
      | true => exact .inl rfl
      | false =>
          have hgrade := hstands.resolve_left nofun
          have hne : e.level ≠ bound := fun heq => hsame ⟨rfl, heq⟩
          unfold Expr.level at hne
          exact .inr (by omega)
    have hside : Reads map (rung (bound + 1)) e place after :=
      h.side (Nat.succ_pos bound) (by omega) hfurther hdrop hfollows
    exact .of_reads hside

/-- What is tried on an expression halts as on the operand with which it starts. -/
theorem haltsAt (h : Legible map inner) {grouped : Bool} {behind : List Char}
    (hextends : e.Extends inner grouped behind) (hfurther : e.further = goesOn)
    (hsequence : e.isSequence = false) (hf : f ∈ detours) : HaltsAt f e := by
  refine haltsAt_of_extends hextends hfurther (fun hfree => ?_) fun _ => h.encloses.detour hf
  have hgrade := (hextends.tight hfree).resolve_right (by rw [hsequence]; nofun)
  exact h.halts (Expr.one_le_grade_iff.1 (by omega)) f hf

/-! ## Values -/

/-- What the rule for binary operators reads is a value, if nothing else that is tried reads it. -/
theorem reads_value (hnullish : Reads map .nullishExpr e place after)
    (hfollows : Follows closers after)
    (harrow : Derives grammar .spaced (.rule .arrowFunction) place none)
    (hassignment : Derives grammar .spaced (.rule .assignment) place none) :
    Reads map .assignExpr e place after := by
  have hternary : Reads map .ternaryExpr e place after :=
    hnullish.followed rfl rfl rfl (.absent (hfollows.refused (by decide)))
  exact hternary.choice rfl rfl fun hmatch =>
    .altSecond harrow (.altSecond hassignment hmatch)

theorem unassigned_of_callExpr (h : Reads map .callExpr e place after)
    (hop : Derives grammar .spaced (.rule .assignOp) (skipLayout after) none) :
    Derives grammar .spaced (.rule .assignment) place none := by
  obtain ⟨stop, children, hmatch, hstop, -⟩ := h
  refine .rule_none (.seq_none hmatch (.seqRefused ?_))
  change Derives grammar .spaced (.rule .assignOp) (skipLayout stop) none
  rw [hstop]
  exact hop

/-- An operand is not the target of an assignment, whatever operator follows. -/
theorem unassigned_of_chain (h : Chain map trailers e place after)
    (hfollows : Follows (ends 9) after) :
    Derives grammar .spaced (.rule .assignment) place none :=
  unassigned_of_callExpr (h.callExpr (hfollows.mono (List.subset_append_left _ _)))
    (refused_assignOp hfollows)

/-- What is no list with commas is legible if it is read as a value, whatever is tried on it before
an assignment. -/
theorem of_value (he : e.IsGrouped) (hsequence : e.isSequence = false)
    (hchain : 11 ≤ e.grade → ∀ {place after : Cursor}, place.drop? e.render.toList = some after →
      startsInName after.rest = false → Chain map trailers e place after)
    (hrounds : 2 ≤ e.grade → e.level ≤ 7 → ∀ {place after : Cursor},
      place.drop? e.render.toList = some after → Follows (ends (e.level + 1)) after →
      Chain map (operandsAt e.level) e place after)
    (hreads : 2 ≤ e.grade → ∀ {place after : Cursor}, place.drop? e.render.toList = some after →
      Follows (ends e.level) after → Reads map (rung e.level) e place after)
    (hunassigned : 2 ≤ e.grade → ∀ {place after : Cursor},
      place.drop? e.render.toList = some after → Follows (ends 9) after →
      Derives grammar .spaced (.rule .assignment) place none)
    (hhalts : ∀ f ∈ detours, HaltsAt f e)
    (hassigned : ∀ target value span, e = .assign .assign target value span →
      value.IsGrouped ∧ value.isSequence = false ∧ Readable map value)
    (hvalue : ∀ {place after : Cursor}, place.drop? e.render.toList = some after →
      Follows closers after → Derives grammar .spaced (.rule .arrowFunction) place none →
      Reads map .assignExpr e place after) : Legible map e := by
  have htried : Tried .bindingElement e :=
    tried_bindingElement (fun _ => hhalts _ (by simp [detours])) hassigned
  have hitems := Expr.items_of_not_sequence hsequence
  have hencloses : Encloses parenParams e :=
    encloses_parenParams hitems (List.forall_mem_singleton.2 ⟨he, tried_param he htried⟩)
  have hreadable : Readable map e := by
    intro place after hdrop hfollows
    have harrow := refused_arrow he (fun f hf _ => hhalts f hf) hencloses hdrop hfollows
    rw [← Expr.sided_eq_item hsequence] at hdrop
    exact hvalue hdrop hfollows harrow
  exact ⟨he, hchain, hrounds, hreads, hunassigned, hreadable, hreadable.alone hsequence,
    fun _ => hhalts, hencloses, htried, fun hdrop hend =>
      refused_label hitems (fun _ => hhalts _ (by simp [detours])) hdrop hend⟩

/-- What binds as tightly as a binary operator is legible if it is read by the rule for its
operators. -/
theorem of_reads (he : e.IsGrouped) (hgrade : 2 ≤ e.grade)
    (hchain : 11 ≤ e.grade → ∀ {place after : Cursor}, place.drop? e.render.toList = some after →
      startsInName after.rest = false → Chain map trailers e place after)
    (hrounds : e.level ≤ 7 → ∀ {place after : Cursor}, place.drop? e.render.toList = some after →
      Follows (ends (e.level + 1)) after → Chain map (operandsAt e.level) e place after)
    (hreads : ∀ {place after : Cursor}, place.drop? e.render.toList = some after →
      Follows (ends e.level) after → Reads map (rung e.level) e place after)
    (hunassigned : ∀ {place after : Cursor}, place.drop? e.render.toList = some after →
      Follows (ends 9) after → Derives grammar .spaced (.rule .assignment) place none)
    (hhalts : ∀ f ∈ detours, HaltsAt f e) : Legible map e := by
  refine of_value he (Expr.one_le_grade_iff.1 (by omega)) hchain (fun _ => hrounds) (fun _ => hreads)
    (fun _ => hunassigned) hhalts ?_ fun hdrop hfollows harrow => ?_
  · rintro target value span rfl
    exact absurd hgrade (by rw [Expr.grade]; omega)
  · have hends {bound : Nat} : Follows (ends bound) _ :=
      hfollows.mono (List.subset_append_left _ _)
    have hlevel := Expr.level_bounds hgrade
    have hnullish : Reads map .nullishExpr e _ _ :=
      (hreads hdrop hends).lower Nat.one_pos hlevel.1 hlevel.2 hends
    exact reads_value hnullish hfollows harrow (hunassigned hdrop hends)

/-- What is read with accesses and calls behind it is legible. -/
theorem of_chain (he : e.IsGrouped) (hgrade : e.grade = 11)
    (h : ∀ {place after : Cursor}, place.drop? e.render.toList = some after →
      startsInName after.rest = false → Chain map trailers e place after)
    (hhalts : ∀ f ∈ detours, HaltsAt f e) : Legible map e := by
  have hlevel : e.level = 9 := by
    rw [Expr.level, hgrade]
    rfl
  refine of_reads he (by omega) (fun _ => h) (fun hle => by omega) (fun hdrop hfollows => ?_)
    (fun hdrop hfollows => unassigned_of_chain (h hdrop hfollows.word) hfollows) hhalts
  rw [hlevel] at hfollows ⊢
  have hstands : e.Stands false 11 := .inr (Nat.le_of_eq hgrade.symm)
  obtain ⟨start, hmem, hat⟩ := he.operand_start hstands hdrop hfollows.word
  exact (h hdrop hfollows.word).unaryExpr hmem hat hfollows

/-- What is read by the rule for signs is legible. -/
theorem of_unary (he : e.IsGrouped) (hgrade : e.grade = 10)
    (h : ∀ {place after : Cursor}, place.drop? e.render.toList = some after →
      Follows (ends 9) after → Reads map .unaryExpr e place after)
    (hunassigned : ∀ {place after : Cursor}, place.drop? e.render.toList = some after →
      Follows (ends 9) after → Derives grammar .spaced (.rule .assignment) place none)
    (hhalts : ∀ f ∈ detours, HaltsAt f e) : Legible map e := by
  have hlevel : e.level = 9 := by
    rw [Expr.level, hgrade]
    rfl
  refine of_reads he (by omega) (fun hge => by omega) (fun hle => by omega) (fun hdrop hfollows => ?_)
    hunassigned hhalts
  rw [hlevel] at hfollows ⊢
  exact h hdrop hfollows

/-- What starts with a sign is legible if it is read by the rule for signs. -/
theorem of_sign (he : e.IsGrouped) (hgrade : e.grade = 10) (hopens : e.Opens signStarts)
    (h : ∀ {place after : Cursor}, place.drop? e.render.toList = some after →
      Follows (ends 9) after → Reads map .unaryExpr e place after) : Legible map e := by
  refine of_unary he hgrade h (fun hdrop hfollows => ?_)
    fun f hf => haltsAt_of_opens hopens (by decide) hf
  obtain ⟨start, hmem, hat⟩ := hopens hdrop hfollows.word
  have hrefuses : ∀ start ∈ signStarts, start.refuses (.rule .assignment) = true := by
    decide
  exact hat.refused (hrefuses start hmem)

/-! ## Each kind of operation -/

/-- What stands around an operator between spaces. -/
theorem exists_between {symbol : List Char} {left right : Expr} {grouped rightGrouped : Bool}
    (hright : right.IsGrouped)
    (hdrop : place.drop? (left.sided grouped ++
      ' ' :: (symbol ++ ' ' :: right.sided rightGrouped)) = some after)
    (hword : startsInName after.rest = false) :
    ∃ middle start, place.drop? (left.sided grouped) = some middle ∧
      middle.drop? (' ' :: (symbol ++ ' ' :: right.sided rightGrouped)) = some after ∧
      middle.drop? (' ' :: (symbol ++ [' '])) = some start ∧
      start.drop? (right.sided rightGrouped) = some after ∧ skipLayout start = start := by
  obtain ⟨middle, hleft, hbehind⟩ := Cursor.drop?_append_eq_some hdrop
  have hsplit : middle.drop? (' ' :: (symbol ++ [' ']) ++ right.sided rightGrouped) = some after := by
    rw [List.cons_append, List.append_assoc]
    exact hbehind
  obtain ⟨start, hoperator, hlast⟩ := Cursor.drop?_append_eq_some hsplit
  exact ⟨middle, start, hleft, hbehind, hoperator, hlast, (hright.sided_start hlast hword).settled⟩

/-- The places between an operator and its operands. -/
theorem exists_sides {op : BinaryOp} {left right : Expr} {span : Span} (hright : right.IsGrouped)
    (hdrop : place.drop? (Expr.binary op left right span).render.toList = some after)
    (hword : startsInName after.rest = false) :
    ∃ middle start, place.drop? (left.sided (left.needsGrouping op false)) = some middle ∧
      middle.drop? (' ' :: (op.symbol.toList ++ [' '])) = some start ∧
      start.drop? (right.sided (right.needsGrouping op true)) = some after ∧
      skipLayout start = start ∧ ∀ bound, op.precedence < bound → Follows (ends bound) middle := by
  rw [Expr.text_binary] at hdrop
  obtain ⟨middle, start, hleft, hbehind, hoperator, hlast, hstart⟩ :=
    exists_between hright hdrop hword
  refine ⟨middle, start, hleft, hoperator, hlast, hstart, fun bound hbound => ?_⟩
  have hmem : op.start ∈ ends bound := by
    refine List.mem_append_right _ (List.mem_cons_of_mem _ (List.mem_map_of_mem ?_))
    exact List.mem_filter.2 ⟨by cases op <;> decide, decide_eq_true hbound⟩
  exact .of_operator hmem (by cases op <;> decide) hbehind

/-- An operation on legible operands is legible. -/
theorem binary {op : BinaryOp} {left right : Expr} (hleft : Legible map left)
    (hright : Legible map right)
    (hstands : left.Stands (left.needsGrouping op false) (op.demand false))
    (hrightStands : right.Stands (right.needsGrouping op true) (op.demand true)) (span : Span) :
    Legible map (.binary op left right span) := by
  obtain ⟨hpos, hbound⟩ := op.precedence_bounds
  have hlevel := Expr.level_binary op left right span
  have hrounds (hle : op.precedence ≤ 7) {place after : Cursor}
      (hdrop : place.drop? (Expr.binary op left right span).render.toList = some after)
      (hfollows : Follows (ends (op.precedence + 1)) after) :
      Chain map (operandsAt op.precedence) (.binary op left right span) place after := by
    have hop : op ≠ .pow := by
      rintro rfl
      exact absurd hle (by decide)
    have hdemand : op.demand false = op.precedence + 1 ∧ op.demand true = op.precedence + 2 := by
      simp [BinaryOp.demand, hop]
    rw [hdemand.1] at hstands
    rw [hdemand.2] at hrightStands
    obtain ⟨middle, start, hleftText, hoperator, hrightText, hstart, hmiddle⟩ :=
      exists_sides hright.grouped hdrop hfollows.word
    have hfirst := hleft.leftSide hpos hle hstands hleftText (hmiddle _ (Nat.lt_succ_self _))
    have hsecond := hright.side (Nat.succ_pos _) (Nat.succ_le_succ hbound) hrightStands hrightText
      hfollows
    exact hfirst.operand hop hoperator hstart hsecond span
  refine of_reads (.binary op hleft.grouped hright.grouped hstands hrightStands span) ?_ ?_ ?_
    (fun hdrop hfollows => ?_) (fun hdrop hfollows => ?_) fun f hf => ?_
  · rw [Expr.grade]
    omega
  · rw [Expr.grade]
    omega
  · rw [hlevel]
    exact hrounds
  · rw [hlevel] at hfollows ⊢
    -- a power is no row of operands: its rule reads another power at its right
    by_cases hle : op.precedence ≤ 7
    · have hchain := hrounds hle hdrop (hfollows.mono (ends_subset (Nat.le_succ _)))
      exact hchain.rung hpos hle hfollows
    · obtain rfl : op = .pow := by
        cases op <;> first | rfl | exact absurd (by decide) hle
      obtain ⟨middle, start, hleftText, hoperator, hrightText, hstart, hmiddle⟩ :=
        exists_sides hright.grouped hdrop hfollows.word
      have hfirst : Reads map (rung 9) left _ middle :=
        hleft.side (by decide) (by decide) hstands hleftText (hmiddle 9 (by decide))
      have hsecond : Reads map (rung 8) right start _ :=
        hright.side (by decide) (by decide) hrightStands hrightText hfollows
      exact reads_pow hfirst hoperator hstart hsecond span
  · obtain ⟨middle, start, hleftText, -, -, -, hmiddle⟩ :=
      exists_sides hright.grouped hdrop hfollows.word
    -- the target that is tried is read at the left, and an operator stands behind it
    have hends := hmiddle 9 (Nat.lt_succ_of_le hbound)
    cases hgrouped : left.needsGrouping op false with
    | true =>
        rw [hgrouped] at hleftText
        exact unassigned_of_chain (hleft.group hleftText) hends
    | false =>
        rw [hgrouped] at hleftText hstands
        have hdemand : 2 ≤ op.demand false := by cases op <;> decide
        exact hleft.unassigned (Nat.le_trans hdemand (hstands.resolve_left Bool.false_ne_true))
          hleftText hends
  · exact hleft.haltsAt (Expr.extends_binary op hstands right span) rfl rfl hf

/-- An operator that counts up or down is legible around a legible operand. -/
theorem update {op : UpdateOp} {leading : Bool} {target : Expr} (h : Legible map target)
    (hstands : target.Stands target.isLoose (if leading then 10 else 11)) (span : Span) :
    Legible map (.update op leading target span) := by
  have hgrouped := Expr.IsGrouped.update op h.grouped hstands span
  cases leading with
  | true =>
      refine of_sign hgrouped rfl (Expr.opens_update op target span) fun hdrop hfollows => ?_
      rw [Expr.text_update] at hdrop
      obtain ⟨middle, hsymbol, htarget⟩ := Cursor.drop?_append_eq_some hdrop
      have hreads : Reads map (rung 9) target middle _ :=
        h.side (by decide) (by decide) hstands htarget hfollows
      have hstart := h.grouped.sided_start htarget hfollows.word
      exact reads_counter hsymbol hstart.settled hreads span
  | false =>
      have hextends := Expr.extends_update op hstands span
      refine of_unary hgrouped rfl (fun hdrop hfollows => ?_) (fun hdrop hfollows => ?_)
        fun f hf => h.haltsAt hextends rfl rfl hf
      · rw [hextends.text] at hdrop
        obtain ⟨middle, htarget, hsymbol⟩ := Cursor.drop?_append_eq_some hdrop
        have hword := (hextends.goes hsymbol).word
        obtain ⟨start, hmem, hat⟩ := h.grouped.operand_start hstands htarget hword
        exact (h.operand hstands htarget hword).counter hmem hat hsymbol span
      · obtain ⟨middle, hchain, hsymbol⟩ := h.before hstands hextends hdrop
        obtain ⟨hcounter, -⟩ := follows_counter hsymbol
        exact unassigned_of_callExpr (hchain.callExpr (hcounter.mono (by decide)))
          (hcounter.refused (by decide))

/-- A condition with legible parts is legible. -/
theorem ternary {condition consequent alternate : Expr} (hcondition : Legible map condition)
    (hconsequent : Legible map consequent) (halternate : Legible map alternate)
    (hstands : condition.Stands false 2) (hconsequentStands : consequent.Stands false 1)
    (halternateStands : alternate.Stands false 1) (span : Span) :
    Legible map (.ternary condition consequent alternate span) := by
  have hextends := Expr.extends_ternary hstands consequent alternate span
  have hgrade := hstands.resolve_left nofun
  have hconsequentItem := Expr.one_le_grade_iff.1 (hconsequentStands.resolve_left nofun)
  have halternateItem := Expr.one_le_grade_iff.1 (halternateStands.resolve_left nofun)
  refine of_value (.ternary hcondition.grouped hconsequent.grouped halternate.grouped hstands
      hconsequentStands halternateStands span) rfl (by rw [Expr.grade]; omega)
    (by rw [Expr.grade]; omega) (by rw [Expr.grade]; omega) (by rw [Expr.grade]; omega)
    (fun f hf => hcondition.haltsAt hextends rfl rfl hf) nofun
    fun {place after} hdrop hfollows harrow => ?_
  rw [hextends.text] at hdrop
  obtain ⟨middle, hconditionText, hbehind⟩ := Cursor.drop?_append_eq_some hdrop
  have hmark {bound : Nat} : Follows (ends bound) middle := by
    have hmem : .text (['?'] ++ [' ']) ∈ ends bound :=
      List.mem_append_right _ List.mem_cons_self
    exact .of_operator hmem rfl hbehind
  have hsplit : middle.drop? (' ' :: (['?'] ++ [' ']) ++ (consequent.sided false ++
      ' ' :: ([':'] ++ ' ' :: alternate.sided false))) = some after := hbehind
  obtain ⟨start, hmarkText, harms⟩ := Cursor.drop?_append_eq_some hsplit
  obtain ⟨last, next, hconsequentText, hcolon, hcolonText, halternateText, hnext⟩ :=
    exists_between halternate.grouped harms hfollows.word
  have hends : Follows closers last := by
    have hmem : .text ([':'] ++ [' ']) ∈ closers := by decide
    exact .of_operator hmem rfl hcolon
  have hstart := (hconsequent.grouped.sided_start hconsequentText hends.word).settled
  rw [Expr.sided_eq_item hconsequentItem] at hconsequentText
  rw [Expr.sided_eq_item halternateItem] at halternateText
  have hfirst : Reads map (rung 1) condition place middle :=
    hcondition.side Nat.one_pos (by decide) hstands hconditionText hmark
  have hreads : Reads map .ternaryExpr (.ternary condition consequent alternate span) place after :=
    reads_ternary hfirst hmarkText hstart (hconsequent.readable _ _ hconsequentText hends) hcolonText
      hnext (halternate.readable _ _ halternateText hfollows) span
  exact hreads.choice rfl rfl fun hmatch =>
    .altSecond harrow (.altSecond (hcondition.unassigned hgrade hconditionText hmark) hmatch)

/-- An assignment with legible parts is legible. -/
theorem assign {op : AssignOp} {target value : Expr} (htarget : Legible map target)
    (hvalue : Legible map value) (hstands : target.Stands false 11)
    (hvalueStands : value.Stands false 1) (span : Span) :
    Legible map (.assign op target value span) := by
  have hextends := Expr.extends_assign op hstands value span
  have htargetItem : target.isSequence = false :=
    Expr.one_le_grade_iff.1 (Nat.le_trans (by decide) (hstands.resolve_left nofun))
  have hvalueItem := Expr.one_le_grade_iff.1 (hvalueStands.resolve_left nofun)
  refine of_value (.assign op htarget.grouped hvalue.grouped hstands hvalueStands span) rfl
    (by rw [Expr.grade]; omega) (by rw [Expr.grade]; omega) (by rw [Expr.grade]; omega)
    (by rw [Expr.grade]; omega)
    (fun f hf => haltsAt_assign op hstands (htarget.halts htargetItem f hf) value span) ?_
    fun {place after} hdrop hfollows harrow => ?_
  · rintro _ _ _ ⟨⟩
    exact ⟨hvalue.grouped, hvalueItem, hvalue.readable⟩
  · rw [hextends.text] at hdrop
    obtain ⟨middle, start, htargetText, hbehind, hoperator, hvalueText, hstart⟩ :=
      exists_between hvalue.grouped hdrop hfollows.word
    have hends : Follows operandEnds middle := by
      have hmem : op.start ∈ operandEnds := by cases op <;> decide
      exact .of_operator hmem (by cases op <;> rfl) hbehind
    have hcall := (htarget.operand hstands htargetText hends.word).callExpr hends
    rw [Expr.sided_eq_item hvalueItem] at hvalueText
    have hreads : Reads map .assignment (.assign op target value span) place after :=
      reads_assignment hcall hoperator hstart (hvalue.readable _ _ hvalueText hfollows) span
    exact hreads.choice rfl rfl fun hmatch => .altSecond harrow (.altFirst _ hmatch)

/-- A list with commas between legible expressions is legible. -/
theorem sequence {first second : Expr} {others : List Expr}
    (h : ∀ e ∈ first :: second :: others, Legible map e) (span : Span) :
    Legible map (.sequence (first :: second :: others) span) := by
  have hgrouped : (Expr.sequence (first :: second :: others) span).IsGrouped :=
    .sequence (fun e he => (h e he).grouped) (by simp) span
  have hsequence : (Expr.sequence (first :: second :: others) span).isSequence ≠ false :=
    Bool.false_ne_true.symm
  have halone : ReadableAlone map (.sequence (first :: second :: others) span) := by
    intro place after hdrop hend
    rw [Expr.text_sequence] at hdrop
    exact reads_sequence (fun e he => ⟨(h e he).grouped, (h e he).readable⟩) hdrop hend span
  have hencloses : Encloses parenParams (.sequence (first :: second :: others) span) :=
    encloses_parenParams rfl fun e he =>
      ⟨(h e he).grouped, tried_param (h e he).grouped (h e he).tried⟩
  have hreadable : Readable map (.sequence (first :: second :: others) span) := by
    intro place after hdrop hfollows
    have harrow := refused_arrow hgrouped (fun _ _ h => absurd h hsequence) hencloses hdrop hfollows
    have hends {bound : Nat} : Follows (ends bound) after :=
      hfollows.mono (List.subset_append_left _ _)
    have hchain : Chain map trailers (.sequence (first :: second :: others) span) place after :=
      .of_reads (reads_group hgrouped halone hdrop)
    have hat : (Start.text ['(']).At place := by
      rw [Expr.item, Expr.isSequence, Expr.sided_true] at hdrop
      exact Start.at_text rfl hdrop
    have hunary : Reads map (rung 9) (.sequence (first :: second :: others) span) place after :=
      hchain.unaryExpr (by decide) hat hends
    exact reads_value (hunary.lower Nat.one_pos (by decide) (Nat.le_refl 9) hends) hfollows harrow
      (unassigned_of_chain hchain hends)
  have hassigned (target value : Expr) (range : Span)
      (h : Expr.sequence (first :: second :: others) span = .assign .assign target value range) :
      value.IsGrouped ∧ value.isSequence = false ∧ Readable map value := by contradiction
  refine ⟨hgrouped, by rw [Expr.grade]; omega, by rw [Expr.grade]; omega, by rw [Expr.grade]; omega,
    by rw [Expr.grade]; omega, hreadable, halone, fun h => absurd h hsequence, hencloses,
    tried_bindingElement (fun h => absurd h hsequence) hassigned,
    fun hdrop hend => refused_label rfl (fun hfirst => ?_) hdrop hend⟩
  exact (h first List.mem_cons_self).halts hfirst _ (by simp [detours])

end Legible

/-! ## All grouped expressions -/

/-- **Every grouped expression is legible.** -/
theorem Expr.IsGrouped.legible (h : e.IsGrouped) : Legible map e := by
  have hitems {es : List Expr} (ih : ∀ e ∈ es, Legible map e) :
      ∀ e ∈ es, e.IsGrouped ∧ Readable map e := fun e he => ⟨(ih e he).grouped, (ih e he).readable⟩
  induction h with
  | ident hname span =>
      refine .of_chain (.ident hname span) rfl (fun hdrop hword => ?_) fun f hf =>
        haltsAt_ident hname span hf
      exact .of_reads (reads_ident hname hdrop hword span)
  | bool value span =>
      refine .of_chain (.bool value span) rfl (fun hdrop hword => ?_) fun f hf =>
        haltsAt_of_opens (Expr.opens_bool value span) (by decide) hf
      exact .of_reads (reads_bool (by rw [Expr.render]) hdrop hword span)
  | null span =>
      refine .of_chain (.null span) rfl (fun hdrop hword => ?_) fun f hf =>
        haltsAt_of_opens (Expr.opens_null span) (by decide) hf
      exact .of_reads (reads_null hdrop hword span)
  | string hline span =>
      refine .of_chain (.string hline span) rfl (fun hdrop hword => ?_) fun f hf =>
        haltsAt_of_opens (Expr.opens_string _ span) (by decide) hf
      exact .of_reads (reads_string hline hdrop span)
  | list hes span ih =>
      refine .of_chain (.list hes span) rfl (fun hdrop hword => ?_) fun f hf =>
        haltsAt_list (fun e he => ⟨hes e he, tried_patternSlot (hes e he) (ih e he).tried⟩) span hf
      rw [Expr.text_list] at hdrop
      exact .of_reads (reads_list (hitems ih) hdrop span)
  | @member _ property h hstands hproperty propertySpan isOptional span ih =>
      have hextends := Expr.extends_member hstands property propertySpan isOptional span
      refine .of_chain (.member h hstands hproperty propertySpan isOptional span) rfl
        (fun hdrop hword => ?_) fun f hf => ih.haltsAt hextends rfl rfl hf
      obtain ⟨middle, howner, hbehind⟩ := ih.before hstands hextends hdrop
      exact howner.member hproperty hbehind hword propertySpan span
  | index h hstands hindex span ih ihindex =>
      refine .of_chain (.index h hstands hindex span) rfl (fun hdrop hword => ?_) fun f hf =>
        ih.haltsAt (Expr.extends_index hstands _ span) rfl rfl hf
      obtain ⟨middle, howner, hbehind⟩ := ih.before hstands (Expr.extends_index hstands ..) hdrop
      exact howner.index hindex ihindex.alone hbehind span
  | call h hstands hargs span ih ihargs =>
      refine .of_chain (.call h hstands hargs span) rfl (fun hdrop hword => ?_) fun f hf =>
        ih.haltsAt (Expr.extends_call hstands _ span) rfl rfl hf
      obtain ⟨middle, hcallee, hbehind⟩ := ih.before hstands (Expr.extends_call hstands ..) hdrop
      exact hcallee.call (hitems ihargs) hbehind span
  | await h hstands span ih =>
      refine .of_sign (.await h hstands span) rfl (Expr.opens_await _ span) fun hdrop hfollows => ?_
      rw [Expr.text_await] at hdrop
      obtain ⟨middle, hword, hinner⟩ := Cursor.drop?_append_eq_some hdrop
      obtain ⟨start, -, hat, hreads⟩ := ih.behind hstands hinner hfollows
      exact reads_await hword hat.settled hreads span
  | unary op h hstands span ih =>
      refine .of_sign (.unary op h hstands span) rfl (Expr.opens_unary op _ span)
        fun hdrop hfollows => ?_
      rw [Expr.text_unary] at hdrop
      obtain ⟨middle, hsign, hoperand⟩ := Cursor.drop?_append_eq_some hdrop
      obtain ⟨start, hmem, hat, hreads⟩ := ih.behind hstands hoperand hfollows
      exact reads_unary hsign hmem hat hreads span
  | update op _ hstands span ih => exact ih.update hstands span
  | binary op _ _ hstands hrightStands span ih ihright =>
      exact ih.binary ihright hstands hrightStands span
  | assign op _ _ hstands hvalueStands span ih ihvalue =>
      exact ih.assign ihvalue hstands hvalueStands span
  | ternary _ _ _ hstands hconsequentStands halternateStands span ih ihconsequent ihalternate =>
      exact ih.ternary ihconsequent ihalternate hstands hconsequentStands halternateStands span
  | @sequence exprs _ hmany span ih =>
      match exprs, hmany with
      | first :: second :: others, _ => exact .sequence ih span

end EventLoop.Script
