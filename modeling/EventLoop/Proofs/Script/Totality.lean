import EventLoop.Proofs.Peg.Record
import EventLoop.Proofs.Script.Assembly
import Mathlib.Data.List.Basic

/-!
# Every rule has a meaning

What the meaning of a rule needs is among its parts, because the grammar records it
in every match of the rule: a value of a kind (`Standing.exists_stmt` and the like),
the part of a rule (`Standing.exists_partOf`), or one row of parts out of a few
(`Standing.mem_forms`).  So there is a meaning, whichever the rule
(`Standing.succeeds_assemble`), if two things are known that the rules of the parts
do not tell: a number token is a number, and a shorthand names something.
-/

namespace EventLoop.Script

open Peg

/-! ## Values that are there -/

/-- There is a value. -/
def Succeeds {α : Type} (x : Except AssemblyError α) : Prop :=
  ∃ a, x = .ok a

namespace Succeeds

variable {α β : Type}

theorem ok (a : α) : Succeeds (.ok a) :=
  ⟨a, rfl⟩

theorem need {what : String} {span : Span} {value? : Option α} (h : ∃ a, value? = some a) :
    Succeeds (Script.need what span value?) := by
  obtain ⟨a, rfl⟩ := h
  exact ok a

theorem bind {x : Except AssemblyError α} {f : α → Except AssemblyError β} (h : Succeeds x)
    (hf : ∀ a, x = .ok a → Succeeds (f a)) : Succeeds (x >>= f) := by
  obtain ⟨a, rfl⟩ := h
  exact hf a rfl

/-- What needs a value that is there goes on with it. -/
theorem needing {what : String} {span : Span} {value? : Option α} {f : α → Except AssemblyError β}
    (h : ∃ a, value? = some a) (hf : ∀ a, value? = some a → Succeeds (f a)) :
    Succeeds (Script.need what span value? >>= f) :=
  bind (need h) fun a ha => hf a (need_ok ha)

theorem map {x : Except AssemblyError α} (f : α → β) (h : Succeeds x) : Succeeds (x.map f) := by
  obtain ⟨a, rfl⟩ := h
  exact ok (f a)

end Succeeds

/-! ## Meanings of a kind -/

/-- What a meaning of a kind looks like. -/
def Meaning.OfKind (meaning : Meaning) : Category → Prop
  | .token => meaning = .token
  | .stmt => ∃ value, meaning = .stmt value
  | .expr => ∃ value, meaning = .expr value
  | .exprs => ∃ values, meaning = .exprs values
  | .pattern => ∃ value, meaning = .pattern value
  | .params => ∃ values, meaning = .params values
  | .slot => ∃ value, meaning = .slot value
  | .patternProperty => ∃ key target, meaning = .patternProperty key target
  | .declarator => ∃ value, meaning = .declarator value
  | .declaration => ∃ kind declarators, meaning = .declaration kind declarators
  | .init => ∃ value, meaning = .init value
  | .clause => ∃ value, meaning = .clause value
  | .switchCase => ∃ value, meaning = .switchCase value
  | .handler => ∃ name body, meaning = .handler name body
  | .member => ∃ value, meaning = .member value
  | .method => ∃ name isStatic function, meaning = .method name isStatic function
  | .property => ∃ key keySpan value, meaning = .property key keySpan value
  | .key => ∃ text, meaning = .key text
  | .body => ∃ value, meaning = .body value
  | .trailer =>
    (∃ values, meaning = .args values) ∨
      (∃ isOptional property propertySpan, meaning = .access isOptional property propertySpan) ∨
        ∃ value, meaning = .index value

theorem Meaning.ofKind_category (meaning : Meaning) : meaning.OfKind meaning.category := by
  cases meaning with
  | token => rfl
  | args => exact .inl ⟨_, rfl⟩
  | access => exact .inr (.inl ⟨_, _, _, rfl⟩)
  | index => exact .inr (.inr ⟨_, rfl⟩)
  | patternProperty | declaration | handler => exact ⟨_, _, rfl⟩
  | method | property => exact ⟨_, _, _, rfl⟩
  | _ => exact ⟨_, rfl⟩

/-- A shorthand in a pattern has a name. -/
def Part.Named (part : Part) : Prop :=
  part.rule = .patternShorthand → ∀ target, part.meaning = .pattern target →
    ∃ name, target.names.head? = some name

/-- Whether all matches of a recorded rule have a part of some kind. -/
def alwaysHas (rule : Rule) (isPart : Rule → Bool) : Bool :=
  (kind rule ≠ .token ∧ kind rule ≠ .hidden) && (body rule).always isPart

namespace Standing

variable {text : List Char} {rule : Rule} {whole : Part} {parts : List Part}

/-- The meaning of a part is of the kind of its rule. -/
theorem ofKind (h : Standing text rule whole parts) {part : Part} (hpart : part ∈ parts) :
    part.meaning.OfKind (categoryOf part.rule) := by
  rw [← (h.fits part hpart).category_eq]
  exact part.meaning.ofKind_category

/-! ## Parts that are always there -/

/-- A rule of a kind that is always recorded has a part. -/
theorem exists_part (h : Standing text rule whole parts) {isPart : Rule → Bool}
    (halways : alwaysHas rule isPart = true) : ∃ part ∈ parts, isPart part.rule = true := by
  obtain ⟨hrecorded, halways⟩ := Bool.and_eq_true_iff.1 halways
  obtain ⟨htoken, hhidden⟩ := of_decide_eq_true hrecorded
  obtain ⟨r, hr, hkind⟩ := (h.labels htoken).exists_of_always
    (kind_mentions_ne rule htoken hhidden) halways
  obtain ⟨part, hpart, rfl⟩ := List.mem_map.1 hr
  exact ⟨part, hpart, hkind⟩

/-- A meaning of a kind that is always recorded has a part. -/
theorem exists_meaning (h : Standing text rule whole parts) (category : Category)
    (halways : alwaysHas rule (Script.ofKind category) = true) :
    ∃ part ∈ parts, part.meaning.OfKind category := by
  obtain ⟨part, hpart, hkind⟩ := h.exists_part halways
  refine ⟨part, hpart, ?_⟩
  rw [← of_decide_eq_true hkind]
  exact h.ofKind hpart

theorem exists_partOf (h : Standing text rule whole parts) (r : Rule)
    (halways : alwaysHas rule (only r) = true) :
    ∃ part, partOf? parts r = some part := by
  obtain ⟨part, hpart, hrule⟩ := h.exists_part halways
  exact Option.isSome_iff_exists.1 (List.find?_isSome.2 ⟨part, hpart, hrule⟩)

theorem exists_textOf (h : Standing text rule whole parts) (r : Rule)
    (halways : alwaysHas rule (only r) = true) :
    ∃ text, textOf? parts r = some text := by
  obtain ⟨part, hpart⟩ := h.exists_partOf r halways
  exact ⟨part.string, by rw [textOf?, hpart]; rfl⟩

/-- A value that some part has is found. -/
theorem exists_found {α : Type} {f : Part → Option α} {part : Part} (hpart : part ∈ parts)
    {a : α} (ha : f part = some a) : ∃ first, parts.findSome? f = some first :=
  Option.isSome_iff_exists.1 (List.findSome?_isSome_iff.2 ⟨part, hpart, by rw [ha]; rfl⟩)

theorem exists_head {α : Type} {f : Part → Option α} {part : Part} (hpart : part ∈ parts)
    {a : α} (ha : f part = some a) : ∃ first, (parts.filterMap f).head? = some first := by
  rw [List.head?_filterMap]
  exact exists_found hpart ha

theorem exists_stmt (h : Standing text rule whole parts)
    (halways : alwaysHas rule (Script.ofKind .stmt) = true) :
    ∃ value, (stmtsOf parts).head? = some value := by
  obtain ⟨part, hpart, value, hmeaning⟩ := h.exists_meaning .stmt halways
  exact exists_head hpart (a := value) (by rw [hmeaning])

theorem exists_expr (h : Standing text rule whole parts)
    (halways : alwaysHas rule (Script.ofKind .expr) = true) :
    ∃ value, (exprsOf parts).head? = some value := by
  obtain ⟨part, hpart, value, hmeaning⟩ := h.exists_meaning .expr halways
  exact exists_head hpart (a := value) (by rw [hmeaning])

theorem exists_pattern (h : Standing text rule whole parts)
    (halways : alwaysHas rule (Script.ofKind .pattern) = true) :
    ∃ value, (patternsOf parts).head? = some value := by
  obtain ⟨part, hpart, value, hmeaning⟩ := h.exists_meaning .pattern halways
  exact exists_head hpart (a := value) (by rw [hmeaning])

/-- The statement that is the part of a rule. -/
theorem exists_stmtOf (h : Standing text rule whole parts) (r : Rule)
    (halways : alwaysHas rule (only r) = true)
    (hstmt : categoryOf r = .stmt) :
    ∃ value, Script.stmtOf? parts r = some value := by
  obtain ⟨part, hpart, hrule⟩ := h.exists_part halways
  have hkind := h.ofKind hpart
  rw [of_decide_eq_true hrule, hstmt] at hkind
  obtain ⟨value, hmeaning⟩ := hkind
  have hmem : part ∈ parts.filter (·.rule = r) := List.mem_filter.2 ⟨hpart, hrule⟩
  exact exists_head hmem (a := value) (by rw [hmeaning])

/-- A meaning that is recorded unless a rule is. -/
theorem exists_meaning_of_none (h : Standing text rule whole parts) (category : Category)
    {r : Rule} (hnone : partOf? parts r = none)
    (halways :
      alwaysHas rule (fun other => only r other || Script.ofKind category other) = true) :
    ∃ part ∈ parts, part.meaning.OfKind category := by
  obtain ⟨part, hpart, hrule⟩ := h.exists_part halways
  rcases Bool.or_eq_true_iff.1 hrule with hrule | hrule
  · exact absurd hrule (List.find?_eq_none.1 hnone part hpart)
  · refine ⟨part, hpart, ?_⟩
    rw [← of_decide_eq_true hrule]
    exact h.ofKind hpart

/-- As many expressions as rules that stand for one. -/
theorem length_exprsOf (h : Standing text rule whole parts) :
    (exprsOf parts).length = ((parts.map Part.rule).filter (Script.ofKind .expr)).length := by
  have hkinds : ∀ part ∈ parts, part.meaning.category = categoryOf part.rule :=
    fun part hpart => (h.fits part hpart).category_eq
  clear h
  induction parts with
  | nil => rfl
  | cons part rest ih =>
      obtain ⟨hpart, hrest⟩ := List.forall_mem_cons.1 hkinds
      have htail := ih hrest
      unfold exprsOf at htail ⊢
      cases hmeaning : part.meaning <;>
        simp [hmeaning, Meaning.category, Script.ofKind, ← hpart, htail]

/-! ## Rows of parts -/

/-- The parts of a rule that repeats nothing are one row out of a few. -/
theorem mem_forms (h : Standing text rule whole parts) {rows : List (List Rule)}
    (hrows : (body rule).forms = some rows)
    (hrecorded : kind rule ≠ .token ∧ kind rule ≠ .hidden) : parts.map Part.rule ∈ rows :=
  (h.labels hrecorded.1).mem_forms (kind_mentions_ne rule hrecorded.1 hrecorded.2) hrows

/-- The only part of a rule that is a choice of rules. -/
theorem exists_single (h : Standing text rule whole parts) (rules : List Rule)
    (hrows : (body rule).forms = some (rules.map ([·])))
    (hrecorded : kind rule ≠ .token ∧ kind rule ≠ .hidden) :
    ∃ part, parts = [part] ∧ part.rule ∈ rules ∧ part.meaning.OfKind (categoryOf part.rule) := by
  obtain ⟨r, hr, hparts⟩ := List.mem_map.1 (h.mem_forms hrows hrecorded)
  obtain ⟨part, rfl, rfl⟩ := List.map_eq_singleton_iff.1 hparts.symm
  exact ⟨part, rfl, hr, h.ofKind List.mem_cons_self⟩

/-- The two parts of a rule that is one rule after another. -/
theorem exists_pair (h : Standing text rule whole parts) (first second : Rule)
    (hrows : (body rule).forms = some [[first, second]])
    (hrecorded : kind rule ≠ .token ∧ kind rule ≠ .hidden) :
    ∃ part other, parts = [part, other] ∧ part.meaning.OfKind (categoryOf first) ∧
      other.meaning.OfKind (categoryOf second) := by
  have hparts := List.mem_singleton.1 (h.mem_forms hrows hrecorded)
  obtain ⟨part, rest, rfl, rfl, hrest⟩ := List.map_eq_cons_iff.1 hparts
  obtain ⟨other, rfl, rfl⟩ := List.map_eq_singleton_iff.1 hrest
  exact ⟨part, other, rfl, h.ofKind (by simp), h.ofKind (by simp)⟩

/-! ## Statements -/

theorem succeeds_stmt (h : Standing text rule whole parts) {x : Except AssemblyError Stmt}
    (hx : assembleStmt? rule whole parts = some x) : Succeeds x := by
  cases rule with
  | statement | elseClause | finallyClause =>
      obtain rfl := Option.some.inj hx
      exact .need (h.exists_stmt (by decide))
  | block | emptyStmt | returnStmt | breakStmt | continueStmt | unknownStmt =>
      obtain rfl := Option.some.inj hx
      exact .ok _
  | functionDecl | labeledStmt =>
      obtain rfl := Option.some.inj hx
      exact .needing (h.exists_textOf .identifier (by decide)) fun _ _ =>
        .needing (h.exists_stmt (by decide)) fun _ _ => .ok _
  | declareStmt =>
      obtain rfl := Option.some.inj hx
      obtain ⟨rules, hrules⟩ := (h.labels (by decide)).starts (by decide)
      obtain ⟨part, rest, rfl, hrule, -⟩ := List.map_eq_cons_iff.1 hrules
      have hkind := h.ofKind List.mem_cons_self
      rw [hrule] at hkind
      obtain ⟨kind, declarators, hmeaning⟩ := hkind
      rw [List.map_cons, hmeaning]
      exact .ok _
  | ifStmt | whileStmt =>
      obtain rfl := Option.some.inj hx
      exact .needing (h.exists_expr (by decide)) fun _ _ =>
        .needing (h.exists_stmt (by decide)) fun _ _ => .ok _
  | switchStmt | throwStmt | exprStmt =>
      obtain rfl := Option.some.inj hx
      exact .needing (h.exists_expr (by decide)) fun _ _ => .ok _
  | classDecl =>
      obtain rfl := Option.some.inj hx
      exact .needing (h.exists_textOf .identifier (by decide)) fun _ _ => .ok _
  | forLoopStmt =>
      obtain rfl := Option.some.inj hx
      exact .needing (h.exists_pattern (by decide)) fun _ _ =>
        .needing (h.exists_textOf .forKind (by decide)) fun _ _ =>
        .needing (h.exists_expr (by decide)) fun _ _ =>
        .needing (h.exists_stmt (by decide)) fun _ _ => .ok _
  | forStmt =>
      obtain rfl := Option.some.inj hx
      exact .needing (h.exists_stmt (by decide)) fun _ _ => .ok _
  | doWhileStmt =>
      obtain rfl := Option.some.inj hx
      exact .needing (h.exists_stmt (by decide)) fun _ _ =>
        .needing (h.exists_expr (by decide)) fun _ _ => .ok _
  | tryStmt =>
      obtain rfl := Option.some.inj hx
      refine .needing (h.exists_stmtOf .block (by decide) rfl) fun _ _ => .ok _
  | _ => contradiction

/-! ## Patterns -/

theorem succeeds_pattern (h : Standing text rule whole parts) {x : Except AssemblyError Pattern}
    (hx : assemblePattern? rule whole parts = some x) : Succeeds x := by
  cases rule with
  | param =>
      obtain rfl := Option.some.inj hx
      exact .need (h.exists_pattern (by decide))
  | bindingTarget =>
      obtain rfl := Option.some.inj hx
      split
      · exact .ok _
      · rename_i hnone
        obtain ⟨part, hpart, value, hmeaning⟩ := h.exists_meaning_of_none .pattern hnone (by decide)
        exact .need (exists_head hpart (a := value) (by rw [hmeaning]))
  | bindingElement | restElement =>
      obtain rfl := Option.some.inj hx
      exact .needing (h.exists_pattern (by decide)) fun _ _ => .ok _
  | patternShorthand =>
      obtain rfl := Option.some.inj hx
      exact .needing (h.exists_partOf .identifier (by decide)) fun _ _ => .ok _
  | arrayPattern | objectPattern =>
      obtain rfl := Option.some.inj hx
      exact .ok _
  | _ => contradiction

/-! ## Expressions -/

/-- An operator and an operand. -/
def isRound : List Rule → Bool
  | [operator, operand] => (binaryOpOf? operator).isSome && Script.ofKind .expr operand
  | _ => false

theorem succeeds_foldOperands (span : Span) {rounds : List (List Rule)}
    (hrounds : ∀ round ∈ rounds, isRound round = true) :
    ∀ (left : Expr) (tail : List Part),
      (∀ part ∈ tail, part.meaning.OfKind (categoryOf part.rule)) →
      tail.map Part.rule = rounds.flatten → Succeeds (foldOperands span left tail) := by
  induction rounds with
  | nil =>
      intro left tail _ htail
      rw [List.map_eq_nil_iff.1 htail]
      exact .ok _
  | cons round rounds ih =>
      intro left tail hkinds htail
      obtain ⟨hround, hothers⟩ := List.forall_mem_cons.1 hrounds
      match round, hround with
      | [operatorRule, operandRule], hround =>
          obtain ⟨operator, rest, rfl, rfl, hrest⟩ := List.map_eq_cons_iff.1 htail
          obtain ⟨operand, tail, rfl, rfl, hbehind⟩ := List.map_eq_cons_iff.1 hrest
          obtain ⟨hoperator, hoperand⟩ := Bool.and_eq_true_iff.1 hround
          obtain ⟨op, hop⟩ := Option.isSome_iff_exists.1 hoperator
          obtain ⟨-, hkinds⟩ := List.forall_mem_cons.1 hkinds
          obtain ⟨hkind, hkinds⟩ := List.forall_mem_cons.1 hkinds
          rw [of_decide_eq_true hoperand] at hkind
          obtain ⟨right, hmeaning⟩ := hkind
          rw [foldOperands, hop, hmeaning]
          exact ih hothers _ tail hkinds hbehind

/-- A part with operators and operands behind it. -/
theorem succeeds_rounds (h : Standing text rule whole parts) {first : Rule}
    {rounds : List (List Rule)} (hrules : parts.map Part.rule = first :: rounds.flatten)
    (hrounds : rounds.all isRound = true) (left : Expr) :
    Succeeds (foldOperands whole.span left parts.tail) := by
  obtain ⟨part, tail, rfl, -, htail⟩ := List.map_eq_cons_iff.1 hrules
  exact succeeds_foldOperands _ (List.all_eq_true.1 hrounds) left tail
    (fun other hother => h.ofKind (List.mem_cons_of_mem _ hother)) htail

/-- Operands with operators between them. -/
theorem succeeds_operands (h : Standing text rule whole parts) {operand : Rule}
    {round : Peg.Expr Rule} {rows : List (List Rule)}
    (hbody : body rule = .seq (.rule operand) (.many round)) (hforms : round.forms = some rows)
    (hrows : rows.all isRound = true) (hrecorded : kind rule ≠ .token ∧ kind rule ≠ .hidden)
    (left : Expr) : Succeeds (foldOperands whole.span left parts.tail) := by
  have hkinds := kind_mentions_ne rule hrecorded.1 hrecorded.2
  have hlabels := h.labels hrecorded.1
  rw [hbody] at hkinds hlabels
  obtain ⟨rest, hrest, hmany⟩ := hlabels.seq_rule (hkinds operand (by simp [Expr.mentions]))
  obtain ⟨rounds, hrounds, rfl⟩ := hmany.many_forms
    (fun r hr => hkinds r (List.mem_append_right _ hr)) hforms
  exact h.succeeds_rounds hrest
    (List.all_eq_true.2 fun row hrow => List.all_eq_true.1 hrows row (hrounds row hrow)) left

theorem succeeds_expr (h : Standing text rule whole parts)
    (hnumber : rule = .number → (numberValue? whole.text).isSome = true)
    {x : Except AssemblyError Expr} (hx : assembleExpr? rule whole parts = some x) :
    Succeeds x := by
  cases rule with
  | assignExpr | literal | parenExpr | templateSub | classHeritage =>
      obtain rfl := Option.some.inj hx
      exact .need (h.exists_expr (by decide))
  | primary =>
      obtain rfl := Option.some.inj hx
      split
      · exact .ok _
      · rename_i hnone
        obtain ⟨part, hpart, value, hmeaning⟩ := h.exists_meaning_of_none .expr hnone (by decide)
        exact .need (exists_head hpart (a := value) (by rw [hmeaning]))
  | expression =>
      obtain rfl := Option.some.inj hx
      obtain ⟨value, hvalue⟩ := h.exists_expr (by decide)
      split
      · rename_i hnone
        rw [hnone] at hvalue
        contradiction
      · exact .ok _
      · exact .ok _
  | spreadElement | unaryExpr | awaitExpr | postfixExpr | callExpr | newExpr =>
      obtain rfl := Option.some.inj hx
      exact .needing (h.exists_expr (by decide)) fun _ _ => .ok _
  | assignment =>
      obtain rfl := Option.some.inj hx
      have hforms : (body .assignment).forms = some [[.callExpr, .assignOp, .assignExpr]] := rfl
      have hlength := h.length_exprsOf
      rw [List.mem_singleton.1 (h.mem_forms hforms (by decide))] at hlength
      obtain ⟨target, value, hexprs⟩ := List.length_eq_two.1 hlength
      rw [hexprs]
      exact .needing (h.exists_textOf .assignOp (by decide)) fun _ _ => .ok _
  | arrowFunction =>
      obtain rfl := Option.some.inj hx
      obtain ⟨part, hpart, value, hmeaning⟩ := h.exists_meaning .body (by decide)
      exact .needing (exists_found hpart (a := value) (by rw [hmeaning])) fun _ _ => .ok _
  | functionExpr =>
      obtain rfl := Option.some.inj hx
      exact .needing (h.exists_stmt (by decide)) fun _ _ => .ok _
  | ternaryExpr =>
      obtain rfl := Option.some.inj hx
      have hforms : (body .ternaryExpr).forms =
        some [[.nullishExpr], [.nullishExpr, .assignExpr, .assignExpr]] := rfl
      have hlength := h.length_exprsOf
      rcases List.mem_cons.1 (h.mem_forms hforms (by decide)) with hrules | hrules
      · rw [hrules] at hlength
        obtain ⟨value, hexprs⟩ := List.length_eq_one_iff.1 hlength
        rw [hexprs]
        exact .ok _
      · rw [List.mem_singleton.1 hrules] at hlength
        obtain ⟨condition, consequent, alternate, hexprs⟩ := List.length_eq_three.1 hlength
        rw [hexprs]
        exact .ok _
  | nullishExpr | logicalOrExpr | logicalAndExpr | equalityExpr | comparisonExpr | additiveExpr
  | multiplicativeExpr =>
      obtain rfl := Option.some.inj hx
      exact .needing (h.exists_expr (by decide)) fun left _ =>
        h.succeeds_operands rfl rfl rfl (by decide) left
  | exponentExpr =>
      obtain rfl := Option.some.inj hx
      have hforms : (body .exponentExpr).forms =
        some [[.unaryExpr], [.unaryExpr, .opPow, .exponentExpr]] := rfl
      have hrules : ∃ rounds : List (List Rule), rounds.all isRound = true ∧
          parts.map Part.rule = .unaryExpr :: rounds.flatten := by
        rcases List.mem_cons.1 (h.mem_forms hforms (by decide)) with hrules | hrules
        · exact ⟨[], rfl, hrules⟩
        · exact ⟨[[.opPow, .exponentExpr]], rfl, List.mem_singleton.1 hrules⟩
      obtain ⟨rounds, hrounds, hrules⟩ := hrules
      exact .needing (h.exists_expr (by decide)) fun left _ => h.succeeds_rounds hrules hrounds left
  | newCallee =>
      obtain rfl := Option.some.inj hx
      exact .needing (h.exists_partOf .identifier (by decide)) fun _ _ => .ok _
  | arrayLit | objectLit | boolean | nullLit | template | regex =>
      obtain rfl := Option.some.inj hx
      exact .ok _
  | number =>
      obtain rfl := Option.some.inj hx
      obtain ⟨value, hvalue⟩ := Option.isSome_iff_exists.1 (hnumber rfl)
      rw [hvalue]
      exact .ok _
  | string =>
      obtain rfl := Option.some.inj hx
      obtain ⟨part, rfl, -⟩ := h.exists_single [.dqChars, .sqChars] rfl (by decide)
      exact .needing ⟨part, rfl⟩ fun _ _ => .ok _
  | _ => contradiction

/-! ## Pieces -/

theorem succeeds_piece (h : Standing text rule whole parts) (hnamed : ∀ part ∈ parts, part.Named) :
    Succeeds (assemblePiece rule whole parts) := by
  cases rule with
  | patternPair =>
      obtain ⟨key, target, rfl, ⟨text, hkey⟩, value, htarget⟩ :=
        h.exists_pair .propertyKey .bindingElement rfl (by decide)
      dsimp only [assemblePiece, List.map]
      rw [hkey, htarget]
      exact .ok _
  | patternProp =>
      obtain ⟨part, rfl, hrule, hkind⟩ :=
        h.exists_single [.restElement, .patternPair, .patternShorthand] rfl (by decide)
      have hname := hnamed part List.mem_cons_self
      obtain ⟨r, start, stop, span, meaning⟩ := part
      simp only [List.mem_cons, List.not_mem_nil, or_false] at hrule
      rcases hrule with rfl | rfl | rfl
      · obtain ⟨target, rfl⟩ := hkind
        exact .ok _
      · obtain ⟨key, target, rfl⟩ := hkind
        exact .ok _
      · obtain ⟨target, rfl⟩ := hkind
        exact .needing (hname rfl target rfl) fun _ _ => .ok _
  | declarator =>
      exact .needing (h.exists_pattern (by decide)) fun _ _ => .ok _
  | varDecl =>
      exact .needing (h.exists_textOf .declKind (by decide)) fun _ _ => .ok _
  | catchClause =>
      exact .needing (h.exists_stmt (by decide)) fun _ _ => .ok _
  | methodDef =>
      obtain ⟨part, hpart, text, hmeaning⟩ := h.exists_meaning .key (by decide)
      exact .needing (exists_found hpart (a := text) (by rw [hmeaning])) fun _ _ =>
        .needing (h.exists_stmt (by decide)) fun _ _ => .ok _
  | classField =>
      exact .needing (h.exists_textOf .identifierName (by decide)) fun _ _ => .ok _
  | classMember =>
      obtain ⟨part, rfl, hrule, hkind⟩ :=
        h.exists_single [.methodDef, .classField, .emptyStmt] rfl (by decide)
      obtain ⟨r, start, stop, span, meaning⟩ := part
      simp only [List.mem_cons, List.not_mem_nil, or_false] at hrule
      rcases hrule with rfl | rfl | rfl
      · obtain ⟨name, isStatic, function, rfl⟩ := hkind
        exact .ok _
      · obtain ⟨value, rfl⟩ := hkind
        exact .ok _
      · obtain ⟨value, rfl⟩ := hkind
        exact .ok _
  | propertyPair =>
      obtain ⟨key, value, rfl, ⟨text, hkey⟩, e, hvalue⟩ :=
        h.exists_pair .propertyKey .assignExpr rfl (by decide)
      obtain ⟨keyRule, keyStart, keyStop, keySpan, keyMeaning⟩ := key
      obtain ⟨valueRule, start, stop, span, valueMeaning⟩ := value
      obtain rfl : keyMeaning = .key text := hkey
      obtain rfl : valueMeaning = .expr e := hvalue
      exact .ok _
  | property =>
      obtain ⟨part, rfl, hrule, hkind⟩ :=
        h.exists_single [.spreadElement, .methodDef, .propertyPair, .propertyShorthand] rfl
          (by decide)
      obtain ⟨r, start, stop, span, meaning⟩ := part
      simp only [List.mem_cons, List.not_mem_nil, or_false] at hrule
      rcases hrule with rfl | rfl | rfl | rfl
      · obtain ⟨value, rfl⟩ := hkind
        exact .ok _
      · obtain ⟨name, isStatic, function, rfl⟩ := hkind
        exact .ok _
      · obtain ⟨key, keySpan, value, rfl⟩ := hkind
        exact .ok _
      · obtain ⟨key, keySpan, value, rfl⟩ := hkind
        exact .ok _
  | propertyKey =>
      obtain ⟨part, rfl, -⟩ := h.exists_single [.identifierName, .string, .number] rfl (by decide)
      dsimp only [assemblePiece]
      split
      · exact .ok _
      · exact .ok _
      · rename_i hother
        exact absurd rfl (hother part)
  | arrowBody =>
      obtain ⟨part, rfl, hrule, hkind⟩ := h.exists_single [.block, .assignExpr] rfl (by decide)
      obtain ⟨r, start, stop, span, meaning⟩ := part
      simp only [List.mem_cons, List.not_mem_nil, or_false] at hrule
      rcases hrule with rfl | rfl
      · obtain ⟨value, rfl⟩ := hkind
        exact .ok _
      · obtain ⟨value, rfl⟩ := hkind
        exact .ok _
  | trailer =>
      obtain ⟨part, rfl, -⟩ :=
        h.exists_single [.callSuffix, .optionalAccess, .regularAccess, .indexAccess] rfl (by decide)
      exact .ok _
  | optionalAccess | regularAccess =>
      exact .needing (h.exists_partOf .identifierName (by decide)) fun _ _ => .ok _
  | indexAccess =>
      exact .needing (h.exists_expr (by decide)) fun _ _ => .ok _
  | arrowParams =>
      dsimp only [assemblePiece]
      split <;> exact .ok _
  | _ => exact .ok _

/-! ## Any rule -/

/-- Every rule has a meaning. -/
theorem succeeds_assemble (h : Standing text rule whole parts)
    (hnumber : rule = .number → (numberValue? whole.text).isSome = true)
    (hnamed : ∀ part ∈ parts, part.Named) : Succeeds (assemble rule whole parts) := by
  unfold assemble
  split
  · exact (h.succeeds_stmt ‹_›).map _
  · split
    · exact (h.succeeds_expr hnumber ‹_›).map _
    · split
      · exact (h.succeeds_pattern ‹_›).map _
      · exact h.succeeds_piece hnamed

end Standing

/-- The meaning of a shorthand has a name. -/
theorem named_assemble {rule : Rule} {start stop : Cursor} {span : Span} {nothing meaning : Meaning}
    {parts : List Part} (h : assemble rule ⟨rule, start, stop, span, nothing⟩ parts = .ok meaning) :
    Part.Named ⟨rule, start, stop, span, meaning⟩ := by
  intro hrule target htarget
  obtain rfl : rule = .patternShorthand := hrule
  obtain rfl : meaning = .pattern target := htarget
  obtain ⟨pattern, hpattern, hmeaning⟩ := map_ok h
  obtain rfl := Meaning.pattern.inj hmeaning
  obtain ⟨name, -, hpattern⟩ := need_bind hpattern
  obtain rfl := Except.ok.inj hpattern
  split
  · exact ⟨name.string, rfl⟩
  · exact ⟨name.string, rfl⟩

end EventLoop.Script
