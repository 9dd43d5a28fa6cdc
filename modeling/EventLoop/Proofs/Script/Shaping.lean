import EventLoop.Proofs.Script.Assembly
import EventLoop.Proofs.Script.Shaped

/-!
# Meanings are well-shaped

The meaning of a rule is put together from parts, so this is where the shape of a phrase is
seen: a phrase that is not taken apart any more keeps its shape.  `Shaping` is what is known of
a tree whose parts are well-shaped; from it follow, rule by rule, the shapes of statements
(`Shaping.everywhere_stmt`), patterns (`Shaping.everywhere_assembled_pattern`) and expressions
(`Shaping.solid_assembled`).
-/

namespace EventLoop.Script

/-- Nothing is spread among the parts that `rule` puts together, so each of its expressions stands
for a single value. -/
def IsUnspread (rule : Rule) : Prop :=
  Rule.spreadElement ∉ (body rule).mentions ∧ kind rule ≠ .token ∧ kind rule ≠ .hidden

instance (rule : Rule) : Decidable (IsUnspread rule) := inferInstanceAs (Decidable (_ ∧ _))

/-- What is known of a tree whose parts are well-shaped. -/
structure Shaping (text : List Char) (rule : Rule) (whole : Part) (parts : List Part) : Prop
    extends Standing text rule whole parts where
  shaped : ∀ part ∈ parts, part.Shaped

namespace Shaping

variable {text : List Char} {rule : Rule} {whole : Part} {parts : List Part}

/-- Where nothing is spread, expressions stand for single values. -/
theorem solid_expr (h : Shaping text rule whole parts) (hunspread : IsUnspread rule)
    {value : Expr} (hvalue : value ∈ exprsOf parts) : (Phrase.expr value).Solid := by
  obtain ⟨part, hpart, hmeaning⟩ := exists_of_mem_exprsOf hvalue
  have hsettled := (h.shaped part hpart).settled
  rw [Part.Settled, hmeaning] at hsettled
  refine ⟨everywhere_expr h.shaped hvalue, hsettled.1 ?_⟩
  rintro hrule
  exact hunspread.1 (hrule ▸ h.mem_mentions hpart hunspread.2)

/-- Where all statements are blocks. -/
theorem isBlock (h : Shaping text rule whole parts) (honly : TakesOnly rule .stmt [.block])
    {value : Stmt} (hvalue : value ∈ stmtsOf parts) : value.isBlock = true := by
  obtain ⟨part, hpart, hmeaning⟩ := exists_of_mem_stmtsOf hvalue
  have hsettled := (h.shaped part hpart).settled
  rw [Part.Settled, hmeaning] at hsettled
  have hrule := h.rule_mem honly hpart (by rw [hmeaning]; rfl)
  exact hsettled (.inl (List.mem_singleton.1 hrule))

/-- Where all expressions are names of constructors. -/
theorem isConstructorName (h : Shaping text rule whole parts)
    (honly : TakesOnly rule .expr [.newCallee]) {value : Expr}
    (hvalue : value ∈ exprsOf parts) : value.isConstructorName = true := by
  obtain ⟨part, hpart, hmeaning⟩ := exists_of_mem_exprsOf hvalue
  have hsettled := (h.shaped part hpart).settled
  rw [Part.Settled, hmeaning] at hsettled
  have hrule := h.rule_mem honly hpart (by rw [hmeaning]; rfl)
  exact hsettled.2 (List.mem_singleton.1 hrule)

/-- The first statement of a tree. -/
theorem firstStmt (h : Shaping text rule whole parts) {value : Stmt}
    (hvalue : (stmtsOf parts).head? = some value) : (Phrase.stmt value).Solid :=
  solid_stmt h.shaped (List.mem_of_mem_head? hvalue)

/-- The first expression of a tree in which nothing is spread. -/
theorem firstExpr (h : Shaping text rule whole parts) (hunspread : IsUnspread rule)
    {value : Expr} (hvalue : (exprsOf parts).head? = some value) :
    (Phrase.expr value).Solid :=
  h.solid_expr hunspread (List.mem_of_mem_head? hvalue)

/-- The first pattern of a tree. -/
theorem firstPattern (h : Shaping text rule whole parts) {value : Pattern}
    (hvalue : (patternsOf parts).head? = some value) :
    (Phrase.pattern value).Everywhere Phrase.WellShaped :=
  everywhere_pattern h.shaped (List.mem_of_mem_head? hvalue)

/-! ## Statements -/

theorem everywhere_stmt (h : Shaping text rule whole parts) {stmt : Stmt}
    (hstmt : assembleStmt? rule whole parts = some (.ok stmt)) :
    (Phrase.stmt stmt).Everywhere Phrase.WellShaped := by
  cases rule with
  | statement | elseClause | finallyClause =>
      exact (h.firstStmt (need_ok (Option.some.inj hstmt))).everywhere
  | block =>
      obtain rfl := Except.ok.inj (Option.some.inj hstmt)
      exact Phrase.everywhere_of_solid trivial (List.forall_mem_map.2 fun _ => solid_stmt h.shaped)
  | emptyStmt | breakStmt | continueStmt | unknownStmt =>
      obtain rfl := Except.ok.inj (Option.some.inj hstmt)
      exact Phrase.everywhere_of_solid trivial (List.forall_mem_nil _)
  | functionDecl =>
      obtain ⟨name, -, hstmt⟩ := need_bind (Option.some.inj hstmt)
      obtain ⟨body, hbody, hstmt⟩ := need_bind hstmt
      obtain rfl := Except.ok.inj hstmt
      have hbody := List.mem_of_mem_head? hbody
      have hsolid := solid_stmt h.shaped hbody
      refine .intro ⟨h.isBlock (by decide) hbody,
        List.forall_mem_singleton.2 hsolid.plain⟩ ?_
      exact List.forall_mem_append.2 ⟨List.forall_mem_map.2 fun _ => everywhere_param h.shaped,
        List.forall_mem_singleton.2 hsolid.everywhere⟩
  | declareStmt =>
      have hmeanings := Option.some.inj hstmt
      split at hmeanings
      · rename_i kind declarators rest heq
        obtain rfl := Except.ok.inj hmeanings
        obtain ⟨part, others, rfl, hmeaning, -⟩ := List.map_eq_cons_iff.1 heq
        obtain ⟨hphrases, hsettled⟩ := h.shaped part List.mem_cons_self
        rw [hmeaning] at hphrases
        rw [Part.Settled, hmeaning] at hsettled
        refine Phrase.everywhere_of_solid hsettled (List.forall_mem_map.2 fun value hvalue => ?_)
        exact ⟨hphrases _ (List.mem_map_of_mem hvalue), rfl⟩
      · contradiction
  | ifStmt =>
      obtain ⟨test, htest, hstmt⟩ := need_bind (Option.some.inj hstmt)
      obtain ⟨thenBody, hthen, hstmt⟩ := need_bind hstmt
      obtain rfl := Except.ok.inj hstmt
      refine Phrase.everywhere_of_solid trivial (List.forall_mem_cons.2
        ⟨h.firstExpr (by decide) htest, List.forall_mem_cons.2
        ⟨h.firstStmt hthen, solid_toList fun value hvalue => ?_⟩⟩)
      exact solid_stmt h.shaped (List.mem_of_getElem? hvalue)
  | switchStmt =>
      obtain ⟨discriminant, hdiscriminant, hstmt⟩ := need_bind (Option.some.inj hstmt)
      obtain rfl := Except.ok.inj hstmt
      refine Phrase.everywhere_of_solid trivial (List.forall_mem_cons.2
        ⟨h.firstExpr (by decide) hdiscriminant, ?_⟩)
      exact List.forall_mem_map.2 fun value hvalue => ⟨everywhere_cases h.shaped value hvalue, rfl⟩
  | classDecl =>
      obtain ⟨name, -, hstmt⟩ := need_bind (Option.some.inj hstmt)
      obtain rfl := Except.ok.inj hstmt
      refine Phrase.everywhere_of_solid trivial (List.forall_mem_append.2
        ⟨solid_toList fun value hvalue => h.firstExpr (by decide) hvalue, ?_⟩)
      exact List.forall_mem_map.2 fun value hvalue =>
        ⟨everywhere_members h.shaped value hvalue, rfl⟩
  | forLoopStmt =>
      obtain ⟨binding, hbinding, hstmt⟩ := need_bind (Option.some.inj hstmt)
      obtain ⟨kind, -, hstmt⟩ := need_bind hstmt
      obtain ⟨collection, hcollection, hstmt⟩ := need_bind hstmt
      obtain ⟨body, hbody, hstmt⟩ := need_bind hstmt
      obtain rfl := Except.ok.inj hstmt
      have htarget : (Phrase.pattern binding).Solid :=
        ⟨h.firstPattern hbinding,
          Phrase.isUnpacking_of_isTarget (h.isTarget (by decide) hbinding)⟩
      exact Phrase.everywhere_of_solid trivial (List.forall_mem_cons.2 ⟨htarget,
        List.forall_mem_cons.2 ⟨h.firstExpr (by decide) hcollection,
        List.forall_mem_singleton.2 (h.firstStmt hbody)⟩⟩)
  | forStmt =>
      obtain ⟨body, hbody, hstmt⟩ := need_bind (Option.some.inj hstmt)
      obtain rfl := Except.ok.inj hstmt
      refine Phrase.everywhere_of_solid (fun value hvalue => (solid_init h.shaped value hvalue).2)
        (List.forall_mem_append.2 ⟨solid_toList fun value hvalue =>
          (solid_init h.shaped value hvalue).1, List.forall_mem_append.2
        ⟨solid_toList (solid_clause h.shaped .forTest), List.forall_mem_append.2
        ⟨solid_toList (solid_clause h.shaped .forUpdate), ?_⟩⟩⟩)
      exact List.forall_mem_singleton.2 (h.firstStmt hbody)
  | whileStmt =>
      obtain ⟨test, htest, hstmt⟩ := need_bind (Option.some.inj hstmt)
      obtain ⟨body, hbody, hstmt⟩ := need_bind hstmt
      obtain rfl := Except.ok.inj hstmt
      exact Phrase.everywhere_of_solid trivial (List.forall_mem_cons.2
        ⟨h.firstExpr (by decide) htest,
        List.forall_mem_singleton.2 (h.firstStmt hbody)⟩)
  | doWhileStmt =>
      obtain ⟨body, hbody, hstmt⟩ := need_bind (Option.some.inj hstmt)
      obtain ⟨test, htest, hstmt⟩ := need_bind hstmt
      obtain rfl := Except.ok.inj hstmt
      exact Phrase.everywhere_of_solid trivial (List.forall_mem_cons.2
        ⟨h.firstStmt hbody,
        List.forall_mem_singleton.2 (h.firstExpr (by decide) htest)⟩)
  | returnStmt =>
      obtain rfl := Except.ok.inj (Option.some.inj hstmt)
      exact Phrase.everywhere_of_solid trivial (solid_toList fun value hvalue =>
        h.firstExpr (by decide) hvalue)
  | throwStmt | exprStmt =>
      obtain ⟨value, hvalue, hstmt⟩ := need_bind (Option.some.inj hstmt)
      obtain rfl := Except.ok.inj hstmt
      exact Phrase.everywhere_of_solid trivial
        (List.forall_mem_singleton.2 (h.firstExpr (by decide) hvalue))
  | tryStmt =>
      obtain ⟨body, hbody, hstmt⟩ := need_bind (Option.some.inj hstmt)
      obtain rfl := Except.ok.inj hstmt
      obtain ⟨hsolid, hblock⟩ := isBlock_stmtOf? h.shaped (.inl rfl) hbody
      have hlast (value : Stmt) (hvalue : value ∈ Script.stmtOf? parts .finallyClause) :=
        isBlock_stmtOf? h.shaped (.inr rfl) hvalue
      have hhandler := solid_handler h.shaped
      refine Phrase.everywhere_of_solid ⟨hblock, fun value hvalue => (hhandler value hvalue).2,
        fun value hvalue => (hlast value hvalue).2⟩ (List.forall_mem_cons.2 ⟨hsolid, ?_⟩)
      exact List.forall_mem_append.2
        ⟨solid_toList fun value hvalue => (hhandler value hvalue).1,
          solid_toList fun value hvalue => (hlast value hvalue).1⟩
  | labeledStmt =>
      obtain ⟨label, -, hstmt⟩ := need_bind (Option.some.inj hstmt)
      obtain ⟨body, hbody, hstmt⟩ := need_bind hstmt
      obtain rfl := Except.ok.inj hstmt
      exact Phrase.everywhere_of_solid trivial
        (List.forall_mem_singleton.2 (h.firstStmt hbody))
  | _ => contradiction

/-- The rules for blocks give blocks. -/
theorem isBlock_assembled (h : Shaping text rule whole parts) {stmt : Stmt}
    (hstmt : assembleStmt? rule whole parts = some (.ok stmt)) :
    rule = .block ∨ rule = .finallyClause → stmt.isBlock = true := by
  rintro (rfl | rfl)
  · obtain rfl := Except.ok.inj (Option.some.inj hstmt)
    rfl
  · exact h.isBlock (by decide)
      (List.mem_of_mem_head? (need_ok (Option.some.inj hstmt)))

/-! ## Patterns -/

theorem everywhere_assembled_pattern (h : Shaping text rule whole parts) {pattern : Pattern}
    (hpattern : assemblePattern? rule whole parts = some (.ok pattern)) :
    (Phrase.pattern pattern).Everywhere Phrase.WellShaped := by
  have hident (part : Part) : (Phrase.pattern part.identPattern).Solid :=
    ⟨Phrase.everywhere_of_solid trivial (List.forall_mem_nil _), rfl⟩
  cases rule with
  | param =>
      exact h.firstPattern (need_ok (Option.some.inj hpattern))
  | bindingTarget =>
      have htarget := Option.some.inj hpattern
      split at htarget
      · rename_i part hpart
        obtain rfl := Except.ok.inj htarget
        exact (hident part).everywhere
      · exact h.firstPattern (need_ok htarget)
  | bindingElement =>
      obtain ⟨target, htarget, hpattern⟩ := need_bind (Option.some.inj hpattern)
      obtain rfl := Except.ok.inj hpattern
      have heverywhere := h.firstPattern htarget
      split
      · rename_i value hvalue
        exact Phrase.everywhere_of_solid trivial (List.forall_mem_cons.2
          ⟨⟨heverywhere, Phrase.isUnpacking_of_isTarget (h.isTarget (by decide) htarget)⟩,
          List.forall_mem_singleton.2 (h.firstExpr (by decide) hvalue)⟩)
      · exact heverywhere
  | patternShorthand =>
      obtain ⟨name, -, hpattern⟩ := need_bind (Option.some.inj hpattern)
      obtain rfl := Except.ok.inj hpattern
      split
      · rename_i value hvalue
        exact Phrase.everywhere_of_solid trivial (List.forall_mem_cons.2 ⟨hident name,
          List.forall_mem_singleton.2 (h.firstExpr (by decide) hvalue)⟩)
      · exact (hident name).everywhere
  | restElement =>
      obtain ⟨target, htarget, hpattern⟩ := need_bind (Option.some.inj hpattern)
      obtain rfl := Except.ok.inj hpattern
      exact Phrase.everywhere_of_solid trivial (List.forall_mem_singleton.2
        ⟨h.firstPattern htarget,
          Phrase.isUnpacking_of_isTarget (h.isTarget (by decide) htarget)⟩)
  | arrayPattern =>
      obtain rfl := Except.ok.inj (Option.some.inj hpattern)
      refine .intro ⟨trivial, List.forall_mem_nil _⟩ fun child hchild => ?_
      obtain ⟨slot, hslot, hchild⟩ := List.mem_flatMap.1 hchild
      obtain ⟨element, helement, rfl⟩ := List.mem_map.1 hchild
      exact everywhere_slots h.shaped slot ((elementsOf_sublist _).subset hslot) element
        (Option.mem_toList.1 helement)
  | objectPattern =>
      obtain rfl := Except.ok.inj (Option.some.inj hpattern)
      refine .intro ⟨trivial, List.forall_mem_map.2 fun property hproperty => ?_⟩
        (List.forall_mem_map.2 (everywhere_targets h.shaped))
      obtain ⟨hproperty, hkey⟩ := List.mem_filter.1 hproperty
      rw [Phrase.isUnpacking_pattern]
      refine Bool.eq_false_iff.2 fun hrest => of_decide_eq_true hkey ?_
      exact h.keys_of_rest property hproperty hrest
  | _ => contradiction

/-! ## Expressions -/

/-- Operators and operands behind an operand. -/
theorem solid_foldOperands {span : Span} {left e : Expr} (tail : List Part)
    (hleft : (Phrase.expr left).Solid)
    (htail : ∀ part ∈ tail, ∀ value, part.meaning = .expr value → (Phrase.expr value).Solid)
    (he : foldOperands span left tail = .ok e) : (Phrase.expr e).Solid := by
  fun_induction foldOperands span left tail with
  | case1 left =>
      obtain rfl := Except.ok.inj he
      exact hleft
  | case2 left operator operand rest op right hmeaning _ ih =>
      obtain ⟨-, htail⟩ := List.forall_mem_cons.1 htail
      obtain ⟨hoperand, htail⟩ := List.forall_mem_cons.1 htail
      refine ih ⟨Phrase.everywhere_of_solid trivial (List.forall_mem_cons.2 ⟨hleft,
        List.forall_mem_singleton.2 (hoperand right hmeaning)⟩), rfl⟩ htail he
  | case3 => contradiction
  | case4 => contradiction

/-- Accesses and calls behind an expression. -/
theorem solid_foldTrailers (tail : List Part) {e : Expr} (he : (Phrase.expr e).Solid)
    (htail : ∀ part ∈ tail, part.Shaped) : (Phrase.expr (foldTrailers e tail)).Solid := by
  induction tail generalizing e with
  | nil => exact he
  | cons part rest ih =>
      obtain ⟨⟨hphrases, hsettled⟩, hrest⟩ := List.forall_mem_cons.1 htail
      rw [foldTrailers]
      refine ih ?_ hrest
      split
      · rename_i values heq
        rw [heq] at hphrases
        exact ⟨.intro ⟨trivial, List.forall_mem_singleton.2 he.plain⟩
          (List.forall_mem_cons.2 ⟨he.everywhere, hphrases⟩), rfl⟩
      · exact ⟨Phrase.everywhere_of_solid trivial (List.forall_mem_singleton.2 he), rfl⟩
      · rename_i value heq
        rw [heq] at hphrases
        rw [Part.Settled, heq] at hsettled
        refine ⟨Phrase.everywhere_of_solid trivial (List.forall_mem_cons.2 ⟨he,
          List.forall_mem_singleton.2 ⟨hphrases _ List.mem_cons_self, hsettled.2⟩⟩), rfl⟩
      · exact he

/-- Plain accesses behind the name of a constructor. -/
theorem isConstructorName_foldTrailers (tail : List Part) {e : Expr}
    (he : e.isConstructorName = true) (htail : ∀ part ∈ tail, part.Shaped)
    (haccess : ∀ part ∈ tail, part.meaning.category = .trailer → part.rule = .regularAccess) :
    (foldTrailers e tail).isConstructorName = true := by
  induction tail generalizing e with
  | nil => exact he
  | cons part rest ih =>
      obtain ⟨⟨-, hsettled⟩, hrest⟩ := List.forall_mem_cons.1 htail
      obtain ⟨hpart, haccess⟩ := List.forall_mem_cons.1 haccess
      rw [foldTrailers]
      refine ih ?_ hrest haccess
      split
      · rename_i values heq
        rw [Part.Settled, heq] at hsettled
        rw [heq] at hpart
        exact absurd (hpart rfl) hsettled
      · rename_i isOptional property propertySpan heq
        rw [Part.Settled, heq] at hsettled
        rw [heq] at hpart
        rw [Expr.isConstructorName, hsettled (hpart rfl), he]
        rfl
      · rename_i value heq
        rw [Part.Settled, heq] at hsettled
        rw [heq] at hpart
        exact absurd (hpart rfl) hsettled.1
      · exact he

/-- A template has an expression between each two of its pieces. -/
theorem length_templateOf (parts : List Part) :
    (templateOf parts).2.1.length = (templateOf parts).2.2.length := by
  induction parts with
  | nil => rfl
  | cons part rest ih =>
      rw [templateOf]
      dsimp only
      split
      · exact congrArg (· + 1) ih
      · exact ih

theorem solid_assembled (h : Shaping text rule whole parts) (hspread : rule ≠ .spreadElement)
    {e : Expr} (he : assembleExpr? rule whole parts = some (.ok e)) : (Phrase.expr e).Solid := by
  have hident (part : Part) : (Phrase.expr part.identExpr).Solid :=
    ⟨Phrase.everywhere_of_solid trivial (List.forall_mem_nil _), rfl⟩
  cases rule with
  | assignExpr | literal | parenExpr | templateSub | classHeritage =>
      exact h.firstExpr (by decide) (need_ok (Option.some.inj he))
  | primary =>
      have hprimary := Option.some.inj he
      split at hprimary
      · rename_i part hpart
        obtain rfl := Except.ok.inj hprimary
        exact hident part
      · exact h.firstExpr (by decide) (need_ok hprimary)
  | expression =>
      have hexprs := Option.some.inj he
      split at hexprs
      · contradiction
      · rename_i value heq
        obtain rfl := Except.ok.inj hexprs
        exact h.solid_expr (by decide) (by rw [heq]; exact List.mem_cons_self)
      · rename_i hone hmany
        obtain rfl := Except.ok.inj hexprs
        refine ⟨Phrase.everywhere_of_solid ?_ (List.forall_mem_map.2 fun _ hvalue =>
          h.solid_expr (by decide) hvalue), rfl⟩
        rcases heq : exprsOf parts with _ | ⟨first, _ | ⟨second, rest⟩⟩
        · exact absurd heq hone
        · exact absurd heq (hmany first)
        · exact Nat.le_add_left 2 rest.length
  | spreadElement => contradiction
  | awaitExpr =>
      obtain ⟨value, hvalue, he⟩ := need_bind (Option.some.inj he)
      obtain rfl := Except.ok.inj he
      exact ⟨Phrase.everywhere_of_solid trivial
        (List.forall_mem_singleton.2 (h.firstExpr (by decide) hvalue)), rfl⟩
  | assignment =>
      obtain ⟨op, -, he⟩ := need_bind (Option.some.inj he)
      obtain ⟨value, hvalue, he⟩ := need_bind he
      obtain ⟨target, htarget, he⟩ := need_bind he
      obtain rfl := Except.ok.inj he
      exact ⟨Phrase.everywhere_of_solid trivial (List.forall_mem_cons.2
        ⟨h.firstExpr (by decide) htarget,
        List.forall_mem_singleton.2 (h.solid_expr (by decide) (List.mem_of_getElem? hvalue))⟩), rfl⟩
  | arrowFunction =>
      obtain ⟨body, hbody, he⟩ := need_bind (Option.some.inj he)
      obtain rfl := Except.ok.inj he
      obtain ⟨hsolid, hblock⟩ := solid_body h.shaped hbody
      exact ⟨everywhere_function h.shaped hsolid hblock none true whole.span, rfl⟩
  | functionExpr =>
      obtain ⟨body, hbody, he⟩ := need_bind (Option.some.inj he)
      obtain rfl := Except.ok.inj he
      have hmem := List.mem_of_mem_head? hbody
      have hsolid : (Phrase.ofBody (.block body)).Solid := solid_stmt h.shaped hmem
      refine ⟨everywhere_function h.shaped hsolid (fun block hblock => ?_) _ false whole.span, rfl⟩
      obtain rfl := FunctionBody.block.inj hblock
      exact h.isBlock (by decide) hmem
  | ternaryExpr =>
      have hexprs := Option.some.inj he
      split at hexprs
      · rename_i value heq
        obtain rfl := Except.ok.inj hexprs
        exact h.solid_expr (by decide) (by rw [heq]; exact List.mem_cons_self)
      · rename_i condition consequent alternate heq
        obtain rfl := Except.ok.inj hexprs
        have hall : ∀ value ∈ exprsOf parts, (Phrase.expr value).Solid := fun _ hvalue =>
          h.solid_expr (by decide) hvalue
        rw [heq] at hall
        exact ⟨Phrase.everywhere_of_solid trivial (List.forall_mem_map.2 hall), rfl⟩
      · contradiction
  | nullishExpr | logicalOrExpr | logicalAndExpr | equalityExpr | comparisonExpr | additiveExpr
  | multiplicativeExpr | exponentExpr =>
      obtain ⟨left, hleft, he⟩ := need_bind (Option.some.inj he)
      have hvalues : ∀ part ∈ parts.tail, ∀ value, part.meaning = .expr value →
          (Phrase.expr value).Solid := fun part hpart value hmeaning =>
        h.solid_expr (by decide)
          (List.mem_filterMap.2 ⟨part, List.mem_of_mem_tail hpart, by rw [hmeaning]⟩)
      exact solid_foldOperands parts.tail
        (h.firstExpr (by decide) hleft) hvalues he
  | unaryExpr =>
      obtain ⟨operand, hoperand, he⟩ := need_bind (Option.some.inj he)
      obtain rfl := Except.ok.inj he
      have hsolid := h.firstExpr (by decide) hoperand
      have hnode := List.forall_mem_singleton.2 hsolid
      split
      · exact ⟨Phrase.everywhere_of_solid trivial hnode, rfl⟩
      · split
        · exact ⟨Phrase.everywhere_of_solid trivial hnode, rfl⟩
        · split
          · exact ⟨Phrase.everywhere_of_solid trivial hnode, rfl⟩
          · exact hsolid
  | postfixExpr =>
      obtain ⟨target, htarget, he⟩ := need_bind (Option.some.inj he)
      obtain rfl := Except.ok.inj he
      have hsolid := h.firstExpr (by decide) htarget
      split
      · exact ⟨Phrase.everywhere_of_solid trivial (List.forall_mem_singleton.2 hsolid), rfl⟩
      · exact hsolid
  | callExpr =>
      obtain ⟨target, htarget, he⟩ := need_bind (Option.some.inj he)
      obtain rfl := Except.ok.inj he
      exact solid_foldTrailers parts.tail (h.firstExpr (by decide) htarget)
        fun part hpart => h.shaped part (List.mem_of_mem_tail hpart)
  | newCallee =>
      obtain ⟨head, -, he⟩ := need_bind (Option.some.inj he)
      obtain rfl := Except.ok.inj he
      exact solid_foldTrailers parts.tail (hident head)
        fun part hpart => h.shaped part (List.mem_of_mem_tail hpart)
  | newExpr =>
      obtain ⟨callee, hcallee, he⟩ := need_bind (Option.some.inj he)
      obtain rfl := Except.ok.inj he
      have hsolid := h.firstExpr (by decide) hcallee
      refine ⟨.intro ⟨h.isConstructorName (by decide) (List.mem_of_mem_head? hcallee),
        List.forall_mem_singleton.2 hsolid.plain⟩ (List.forall_mem_cons.2 ⟨hsolid.everywhere,
        List.forall_mem_map.2 fun _ => everywhere_arg h.shaped⟩), rfl⟩
  | arrayLit =>
      obtain rfl := Except.ok.inj (Option.some.inj he)
      exact ⟨.intro ⟨trivial, List.forall_mem_nil _⟩
        (List.forall_mem_map.2 fun _ => everywhere_expr h.shaped), rfl⟩
  | objectLit =>
      obtain rfl := Except.ok.inj (Option.some.inj he)
      exact ⟨.intro ⟨trivial, List.forall_mem_nil _⟩
        (List.forall_mem_map.2 (everywhere_properties h.shaped)), rfl⟩
  | number =>
      have hnumber := Option.some.inj he
      split at hnumber
      · obtain rfl := Except.ok.inj hnumber
        exact ⟨Phrase.everywhere_of_solid trivial (List.forall_mem_nil _), rfl⟩
      · contradiction
  | string =>
      obtain ⟨content, -, he⟩ := need_bind (Option.some.inj he)
      obtain rfl := Except.ok.inj he
      exact ⟨Phrase.everywhere_of_solid trivial (List.forall_mem_nil _), rfl⟩
  | boolean | nullLit | regex =>
      obtain rfl := Except.ok.inj (Option.some.inj he)
      exact ⟨Phrase.everywhere_of_solid trivial (List.forall_mem_nil _), rfl⟩
  | template =>
      obtain rfl := Except.ok.inj (Option.some.inj he)
      refine ⟨Phrase.everywhere_of_solid (congrArg (· + 1) (length_templateOf parts))
        (List.forall_mem_map.2 fun value hvalue => ?_), rfl⟩
      rw [Standing.exprs_templateOf] at hvalue
      exact h.solid_expr (by decide) hvalue
  | _ => contradiction

/-- The rule for constructors gives their names. -/
theorem isConstructorName_assembled (h : Shaping text .newCallee whole parts) {e : Expr}
    (he : assembleExpr? .newCallee whole parts = some (.ok e)) : e.isConstructorName = true := by
  obtain ⟨head, -, he⟩ := need_bind (Option.some.inj he)
  obtain rfl := Except.ok.inj he
  refine isConstructorName_foldTrailers parts.tail rfl
    (fun part hpart => h.shaped part (List.mem_of_mem_tail hpart)) fun part hpart hcategory => ?_
  have honly : TakesOnly .newCallee .trailer [.regularAccess] := by decide
  exact List.mem_singleton.1 (h.rule_mem honly (List.mem_of_mem_tail hpart) hcategory)

theorem everywhere_assembled_expr (h : Shaping text rule whole parts) {e : Expr}
    (he : assembleExpr? rule whole parts = some (.ok e)) :
    (Phrase.expr e).Everywhere Phrase.WellShaped := by
  by_cases hspread : rule = .spreadElement
  · subst hspread
    obtain ⟨value, hvalue, he⟩ := need_bind (Option.some.inj he)
    obtain rfl := Except.ok.inj he
    exact Phrase.everywhere_of_solid trivial
      (List.forall_mem_singleton.2 (h.firstExpr (by decide) hvalue))
  · exact (h.solid_assembled hspread he).everywhere

end Shaping

end EventLoop.Script
