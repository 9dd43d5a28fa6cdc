import EventLoop.Proofs.Script.Pick

/-!
# Meanings have their phrases in the order of the text

The parts of a tree are put together rule by rule, so this is where each rule
is looked at.  If the phrases of the parts are placed between their ends, then so
are those of the whole (`Standing.assembled`).  All that is used of a rule is which
parts its meaning picks and in which order the grammar puts them.
-/

namespace EventLoop.Script

open Peg

/-! ## Meanings that are there -/

theorem bind_ok {α β : Type} {x : Except AssemblyError α} {f : α → Except AssemblyError β} {b : β}
    (h : x >>= f = .ok b) : ∃ a, x = .ok a ∧ f a = .ok b := by
  cases x with
  | error error => contradiction
  | ok a => exact ⟨a, rfl, h⟩

theorem need_ok {α : Type} {what : String} {span : Span} {value? : Option α} {value : α}
    (h : need what span value? = .ok value) : value? = some value := by
  cases value? with
  | none => contradiction
  | some a => exact congrArg some (Except.ok.inj h)

theorem need_bind {α β : Type} {what : String} {span : Span} {value? : Option α}
    {f : α → Except AssemblyError β} {b : β} (h : need what span value? >>= f = .ok b) :
    ∃ a, value? = some a ∧ f a = .ok b := by
  obtain ⟨a, ha, hb⟩ := bind_ok h
  exact ⟨a, need_ok ha, hb⟩

/-- What is known of the meaning of a tree. -/
structure Assembled (text : List Char) (whole : Part) (rule : Rule) (meaning : Meaning) : Prop where
  category_eq : meaning.category = categoryOf rule
  placed : Placed text whole.start.offset whole.stop.offset meaning.phrases
  proper : Part.Proper { whole with meaning }

namespace Standing

variable {text : List Char} {rule : Rule} {whole : Part} {parts : List Part}

/-! ## Statements -/

theorem keepsRaw (h : Standing text .unknownStmt whole parts) :
    KeepsRaw text (String.ofList (rawText whole.text)) whole.span := by
  obtain ⟨⟨hline, htext⟩, hwhole, hunsupported⟩ := h.stands.raw h.rule_eq
  obtain ⟨before, hsplit, hstart, hspan⟩ :=
    LineMap.exists_span_eq h.stands.leads h.stands.inside
  rw [hstart] at hunsupported
  refine ⟨before, whole.text, whole.stop.rest, hsplit, h.stands.span_eq.trans hspan, ?_, hline,
    hunsupported, hwhole⟩
  rw [String.toList_ofList, htext]

theorem placed_stmt (h : Standing text rule whole parts) {stmt : Stmt}
    (hstmt : assembleStmt? rule whole parts = some (.ok stmt)) :
    Placed text whole.start.offset whole.stop.offset [.stmt stmt] := by
  cases rule with
  | statement | elseClause | finallyClause =>
      exact h.placed (h.stmt (need_ok (Option.some.inj hstmt)))
  | block =>
      obtain rfl := Except.ok.inj (Option.some.inj hstmt)
      exact h.node (h.stmts (.refl _))
  | emptyStmt | breakStmt | continueStmt =>
      obtain rfl := Except.ok.inj (Option.some.inj hstmt)
      exact h.alone
  | unknownStmt =>
      obtain rfl := Except.ok.inj (Option.some.inj hstmt)
      exact h.alone rfl (by simp [Phrase.names]) rfl rfl h.keepsRaw
  | functionDecl =>
      obtain ⟨name, hname, hstmt⟩ := need_bind (Option.some.inj hstmt)
      obtain ⟨body, hbody, hstmt⟩ := need_bind hstmt
      obtain rfl := Except.ok.inj hstmt
      exact h.node (h.append h.params (h.stmt hbody) (by decide))
        (List.forall_mem_singleton.2 (h.accepted hname))
  | declareStmt =>
      have hmeanings := Option.some.inj hstmt
      split at hmeanings
      · rename_i kind declarators rest heq
        obtain rfl := Except.ok.inj hmeanings
        obtain ⟨part, others, rfl, hmeaning, -⟩ := List.map_eq_cons_iff.1 heq
        have hpicked := h.part (List.mem_cons_self (a := part))
        rw [hmeaning] at hpicked
        exact h.node hpicked
      · contradiction
  | ifStmt =>
      obtain ⟨test, htest, hstmt⟩ := need_bind (Option.some.inj hstmt)
      obtain ⟨thenBody, hthen, hstmt⟩ := need_bind hstmt
      obtain rfl := Except.ok.inj hstmt
      exact h.node (h.append (h.expr htest) (h.branches hthen) (by decide))
  | switchStmt =>
      obtain ⟨discriminant, hdiscriminant, hstmt⟩ := need_bind (Option.some.inj hstmt)
      obtain rfl := Except.ok.inj hstmt
      exact h.node (h.append (h.expr hdiscriminant) h.cases (by decide))
  | classDecl =>
      obtain ⟨name, hname, hstmt⟩ := need_bind (Option.some.inj hstmt)
      obtain rfl := Except.ok.inj hstmt
      exact h.node (h.append h.expr? h.members (by decide))
        (List.forall_mem_singleton.2 (h.accepted hname))
  | forLoopStmt =>
      obtain ⟨binding, hbinding, hstmt⟩ := need_bind (Option.some.inj hstmt)
      obtain ⟨kind, -, hstmt⟩ := need_bind hstmt
      obtain ⟨collection, hcollection, hstmt⟩ := need_bind hstmt
      obtain ⟨body, hbody, hstmt⟩ := need_bind hstmt
      obtain rfl := Except.ok.inj hstmt
      exact h.node (h.append (h.pattern hbinding)
        (h.append (h.expr hcollection) (h.stmt hbody) (by decide)) (by decide))
  | forStmt =>
      obtain ⟨body, hbody, hstmt⟩ := need_bind (Option.some.inj hstmt)
      obtain rfl := Except.ok.inj hstmt
      have hupdate := h.append (h.clause .forUpdate) (h.stmt hbody) (by decide)
      have htest := h.append (h.clause .forTest) hupdate (by decide)
      exact h.node (h.append h.init htest (by decide))
  | whileStmt =>
      obtain ⟨test, htest, hstmt⟩ := need_bind (Option.some.inj hstmt)
      obtain ⟨body, hbody, hstmt⟩ := need_bind hstmt
      obtain rfl := Except.ok.inj hstmt
      exact h.node (h.append (h.expr htest) (h.stmt hbody) (by decide))
  | doWhileStmt =>
      obtain ⟨body, hbody, hstmt⟩ := need_bind (Option.some.inj hstmt)
      obtain ⟨test, htest, hstmt⟩ := need_bind hstmt
      obtain rfl := Except.ok.inj hstmt
      exact h.node (h.append (h.stmt hbody) (h.expr htest) (by decide))
  | returnStmt =>
      obtain rfl := Except.ok.inj (Option.some.inj hstmt)
      exact h.node h.expr?
  | throwStmt =>
      obtain ⟨value, hvalue, hstmt⟩ := need_bind (Option.some.inj hstmt)
      obtain rfl := Except.ok.inj hstmt
      exact h.node (h.expr hvalue)
  | tryStmt =>
      obtain ⟨body, hbody, hstmt⟩ := need_bind (Option.some.inj hstmt)
      obtain rfl := Except.ok.inj hstmt
      have hhandler := h.append h.handler (h.stmtOf? .finallyClause) (by decide)
      exact h.node (h.append (h.stmtOf hbody) hhandler (by decide)) h.accepted_handler
  | labeledStmt =>
      obtain ⟨label, hlabel, hstmt⟩ := need_bind (Option.some.inj hstmt)
      obtain ⟨body, hbody, hstmt⟩ := need_bind hstmt
      obtain rfl := Except.ok.inj hstmt
      exact h.node (h.stmt hbody) (List.forall_mem_singleton.2 (h.accepted hlabel))
  | exprStmt =>
      obtain ⟨e, he, hstmt⟩ := need_bind (Option.some.inj hstmt)
      obtain rfl := Except.ok.inj hstmt
      exact h.node (h.expr he)
  | _ => contradiction

/-! ## Patterns -/

/-- What is declared without a value does not stand before an equals sign. -/
theorem isGuarded (h : Standing text .declarator whole parts)
    (hnone : (exprsOf parts).head? = none) : IsGuarded text whole.span := by
  obtain ⟨before, hsplit, -, hspan⟩ := LineMap.exists_span_eq h.stands.leads h.stands.inside
  refine ⟨before, whole.text, whole.stop.rest, hsplit, h.stands.span_eq.trans hspan, ?_⟩
  refine (h.guarded rfl).resolve_left fun hvalue => ?_
  obtain ⟨part, hpart, hrule⟩ := List.mem_map.1 hvalue
  have hcategory := (h.fits part hpart).category_eq
  rw [hrule] at hcategory
  obtain ⟨value, hmeaning⟩ : ∃ value, part.meaning = .expr value := by
    cases hmeaning : part.meaning <;> rw [hmeaning] at hcategory <;> first
      | exact ⟨_, rfl⟩
      | contradiction
  have hmem : value ∈ exprsOf parts := List.mem_filterMap.2 ⟨part, hpart, by rw [hmeaning]⟩
  rw [List.head?_eq_none_iff.1 hnone] at hmem
  contradiction

theorem placed_pattern (h : Standing text rule whole parts) {pattern : Pattern}
    (hpattern : assemblePattern? rule whole parts = some (.ok pattern)) :
    Placed text whole.start.offset whole.stop.offset [.pattern pattern] := by
  cases rule with
  | param => exact h.placed (h.pattern (need_ok (Option.some.inj hpattern)))
  | bindingTarget =>
      have htarget := Option.some.inj hpattern
      split at htarget
      · rename_i part hpart
        obtain rfl := Except.ok.inj htarget
        exact h.placed (h.named hpart)
      · exact h.placed (h.pattern (need_ok htarget))
  | bindingElement =>
      obtain ⟨target, htarget, hpattern⟩ := need_bind (Option.some.inj hpattern)
      obtain rfl := Except.ok.inj hpattern
      split
      · rename_i value hvalue
        exact h.node (h.append (h.pattern htarget) (h.expr hvalue) (by decide))
          (by simp [Phrase.names]) rfl rfl (h.isTarget (by decide) htarget)
      · exact h.placed (h.pattern htarget)
  | patternShorthand =>
      obtain ⟨name, hname, hpattern⟩ := need_bind (Option.some.inj hpattern)
      obtain rfl := Except.ok.inj hpattern
      split
      · rename_i value hvalue
        exact h.node (h.append (h.named hname) (h.expr hvalue) (by decide))
      · exact h.placed (h.named hname)
  | restElement =>
      obtain ⟨target, htarget, hpattern⟩ := need_bind (Option.some.inj hpattern)
      obtain rfl := Except.ok.inj hpattern
      exact h.node (h.pattern htarget) (by simp [Phrase.names]) rfl rfl
        (h.isTarget (by decide) htarget)
  | arrayPattern =>
      obtain rfl := Except.ok.inj (Option.some.inj hpattern)
      exact h.node h.slots
  | objectPattern =>
      obtain rfl := Except.ok.inj (Option.some.inj hpattern)
      exact h.node h.targets (by simp [Phrase.names]) rfl rfl h.keys_of_rest
  | _ => contradiction

/-- A rule for patterns gives patterns of its kind. -/
theorem givesPattern_assembled (h : Standing text rule whole parts) {pattern : Pattern}
    (hpattern : assemblePattern? rule whole parts = some (.ok pattern)) :
    Script.givesPattern rule pattern = true := by
  cases rule with
  | param | restElement => rfl
  | bindingTarget =>
      have htarget := Option.some.inj hpattern
      split at htarget
      · obtain rfl := Except.ok.inj htarget
        rfl
      · exact h.isTarget (by decide) (need_ok htarget)
  | bindingElement =>
      obtain ⟨target, htarget, hpattern⟩ := need_bind (Option.some.inj hpattern)
      obtain rfl := Except.ok.inj hpattern
      split
      · rfl
      · have hgiven := h.isTarget (by decide) htarget
        cases target <;> first | rfl | contradiction
  | patternShorthand =>
      obtain ⟨name, -, hpattern⟩ := need_bind (Option.some.inj hpattern)
      obtain rfl := Except.ok.inj hpattern
      split <;> rfl
  | arrayPattern | objectPattern =>
      obtain rfl := Except.ok.inj (Option.some.inj hpattern)
      rfl
  | _ => contradiction

/-! ## Operators and trailers -/

/-- Operands behind a left operand: each operation starts with all that is to
the left of its operator. -/
theorem placed_foldOperands {span : Span} (tail : List Part) {left e : Expr}
    {first middle last : Nat} (hleft : Placed text first middle [.expr left])
    (hbetween : Between middle tail last) (hfits : ∀ part ∈ tail, part.Fits text)
    (he : foldOperands span left tail = .ok e) : Placed text first last [.expr e] := by
  fun_induction foldOperands span left tail generalizing middle with
  | case1 left =>
      obtain rfl := Except.ok.inj he
      exact hleft.widen (Nat.le_refl first) hbetween.le
  | case2 left operator operand rest op right hmeaning _ ih =>
      obtain ⟨-, hfits⟩ := List.forall_mem_cons.1 hfits
      obtain ⟨hoperand, hfits⟩ := List.forall_mem_cons.1 hfits
      cases hbetween with
      | cons hoperator hoperatorStop hbetween =>
          cases hbetween with
          | cons hstart hstop hrest =>
              have hright := hoperand.placed
              rw [hmeaning] at hright
              obtain ⟨hsound, hrightStart, hrightStop⟩ := hright.sound_single
              have hgap : middle ≤ operand.start.offset :=
                Nat.le_trans hoperator (Nat.le_trans hoperatorStop hstart)
              refine ih (hleft.merge hsound.here.stretch (.single hsound ?_ ?_) ?_ hrightStop
                rfl rfl (by simp [Phrase.names]) trivial) hrest hfits he
              · exact Nat.le_refl _
              · exact Nat.le_refl _
              · exact Nat.le_trans hgap hrightStart
  | case3 => contradiction
  | case4 => contradiction

/-- What goes on behind an expression with a part of the text. -/
theorem placed_trailer {e value : Expr} {part : Part} {first middle : Nat} {others : List Phrase}
    (he : Placed text first middle [.expr e]) (hpart : part.Fits text)
    (hle : middle ≤ part.start.offset) (hothers : part.meaning.phrases = others)
    (hspan : value.span = e.span.merge part.span)
    (hchildren : Phrase.children (.expr value) = .expr e :: others)
    (hnames : Phrase.names (.expr value) = []) (hread : (Phrase.expr value).IsRead text) :
    Placed text first part.stop.offset [.expr value] := by
  obtain ⟨hstart, hstop⟩ := hpart.stands.span_ends
  have hplaced := hpart.placed
  rw [hothers, ← hstart, ← hstop] at hplaced
  exact he.merge hpart.stands.stretch hplaced (by omega) (by omega) hspan hchildren
    (by simp [hnames]) hread

/-- Accesses and calls behind an expression: each of them starts with all that
is to the left of it. -/
theorem placed_foldTrailers (tail : List Part) {e : Expr} {first middle last : Nat}
    (he : Placed text first middle [.expr e]) (hbetween : Between middle tail last)
    (hfits : ∀ part ∈ tail, part.Fits text) :
    Placed text first last [.expr (foldTrailers e tail)] := by
  induction tail generalizing e middle with
  | nil => exact he.widen (Nat.le_refl first) hbetween.le
  | cons part rest ih =>
      obtain ⟨hpart, hfits⟩ := List.forall_mem_cons.1 hfits
      cases hbetween with
      | cons hstart hstop hrest =>
          rw [foldTrailers]
          refine ih ?_ hrest hfits
          split
          · rename_i values heq
            exact placed_trailer he hpart hstart (by rw [heq]; rfl) rfl rfl rfl trivial
          · rename_i isOptional property propertySpan heq
            have hproper := hpart.proper
            rw [Part.Proper, heq] at hproper
            exact placed_trailer he hpart hstart (by rw [heq]; rfl) rfl rfl rfl hproper
          · rename_i value heq
            exact placed_trailer he hpart hstart (by rw [heq]; rfl) rfl rfl rfl trivial
          · exact he.widen (Nat.le_refl first) (Nat.le_trans hstart hstop)

/-! ## Expressions -/

/-- The expressions of a template are those of its parts. -/
theorem exprs_templateOf (parts : List Part) : (templateOf parts).2.2 = exprsOf parts := by
  induction parts with
  | nil => rfl
  | cons part rest ih =>
      rw [templateOf]
      dsimp only
      split
      · rename_i value heq
        rw [exprsOf, List.filterMap_cons_some (by rw [heq])]
        exact congrArg (value :: ·) ih
      · rename_i hother
        rw [exprsOf, List.filterMap_cons_none (by split; exact absurd ‹_› (hother _); rfl)]
        exact ih

theorem isToken (h : Standing text rule whole parts) (hwhole : isWhole rule = true) :
    IsToken text whole.string.toList whole.span :=
  h.stands.isToken (by rwa [h.rule_eq])

theorem spelled (h : Standing text rule whole parts) (hplain : isPlainToken rule = true) :
    (Script.body rule).Spells whole.text := by
  have hspelled := h.stands.spelled
  rw [h.rule_eq] at hspelled
  exact hspelled hplain

theorem isRead_number (h : Standing text .number whole parts) {value : Float}
    (hvalue : numberValue? whole.text = some value) :
    Phrase.IsRead text (.expr (.number value whole.span)) := by
  have htoken := h.isToken rfl
  rw [Part.string, String.toList_ofList] at htoken
  obtain ⟨other, hother, hdenotes⟩ := exists_denotes (spells_of_wordEnd (h.spelled rfl))
  obtain rfl := Option.some.inj (hvalue.symm.trans hother)
  exact ⟨whole.text, htoken, hdenotes⟩

theorem isRead_boolean (h : Standing text .boolean whole parts) :
    Phrase.IsRead text (.expr (.bool (whole.string = "true") whole.span)) := by
  have htoken := h.isToken rfl
  have hspelled := spells_of_wordEnd (h.spelled rfl)
  have hword : whole.string = "true" ∨ whole.string = "false" := by
    rw [Part.string]
    rcases Expr.spells_alt.1 hspelled with htrue | hfalse
    · exact .inl (by rw [Expr.spells_text.1 htrue]; rfl)
    · exact .inr (by rw [Expr.spells_text.1 hfalse]; rfl)
  rcases hword with hword | hword <;> rwa [hword] at htoken ⊢

theorem isRead_nullLit (h : Standing text .nullLit whole parts) :
    Phrase.IsRead text (.expr (.null whole.span)) := by
  have htoken := h.isToken rfl
  have hspelled := spells_of_wordEnd (h.spelled rfl)
  rwa [Part.string, Expr.spells_text.1 hspelled] at htoken

theorem placed_expr (h : Standing text rule whole parts) {e : Expr}
    (he : assembleExpr? rule whole parts = some (.ok e)) :
    Placed text whole.start.offset whole.stop.offset [.expr e] := by
  cases rule with
  | assignExpr | literal | parenExpr | templateSub | classHeritage =>
      exact h.placed (h.expr (need_ok (Option.some.inj he)))
  | primary =>
      have hprimary := Option.some.inj he
      split at hprimary
      · rename_i part hpart
        obtain rfl := Except.ok.inj hprimary
        exact h.placed (h.named hpart)
      · exact h.placed (h.expr (need_ok hprimary))
  | expression =>
      have hexprs := Option.some.inj he
      have hall := h.exprs (.refl (exprsOf parts))
      split at hexprs
      · contradiction
      · rename_i value heq
        obtain rfl := Except.ok.inj hexprs
        exact h.placed (h.expr (by rw [heq]; rfl))
      · rename_i hone hmany
        obtain rfl := Except.ok.inj hexprs
        refine h.node hall (by simp [Phrase.names]) rfl rfl ?_
        rcases heq : exprsOf parts with _ | ⟨first, _ | ⟨second, rest⟩⟩
        · exact absurd heq hone
        · exact absurd heq (hmany first)
        · exact Nat.le_add_left 2 rest.length
  | spreadElement | awaitExpr =>
      obtain ⟨value, hvalue, he⟩ := need_bind (Option.some.inj he)
      obtain rfl := Except.ok.inj he
      exact h.node (h.expr hvalue)
  | assignment =>
      obtain ⟨op, -, he⟩ := need_bind (Option.some.inj he)
      obtain ⟨value, hvalue, he⟩ := need_bind he
      obtain ⟨target, htarget, he⟩ := need_bind he
      obtain rfl := Except.ok.inj he
      exact h.node (h.twoExprs htarget hvalue)
  | arrowFunction =>
      obtain ⟨body, hbody, he⟩ := need_bind (Option.some.inj he)
      obtain rfl := Except.ok.inj he
      exact h.node (h.append h.params (h.body? hbody) (by decide))
        (by simp [Phrase.names, functionOf])
  | functionExpr =>
      obtain ⟨body, hbody, he⟩ := need_bind (Option.some.inj he)
      obtain rfl := Except.ok.inj he
      exact h.node (h.append h.params (h.stmt hbody) (by decide))
        fun name hname => h.accepted (Option.mem_toList.1 hname)
  | ternaryExpr =>
      have hexprs := Option.some.inj he
      split at hexprs
      · rename_i value heq
        obtain rfl := Except.ok.inj hexprs
        exact h.placed (h.expr (by rw [heq]; rfl))
      · rename_i condition consequent alternate heq
        obtain rfl := Except.ok.inj hexprs
        have hall := h.exprs (.refl (exprsOf parts))
        rw [heq] at hall
        exact h.node hall
      · contradiction
  | nullishExpr | logicalOrExpr | logicalAndExpr | equalityExpr | comparisonExpr | additiveExpr
  | multiplicativeExpr | exponentExpr =>
      obtain ⟨left, hleft, he⟩ := need_bind (Option.some.inj he)
      obtain ⟨rules, hrules⟩ := (h.labels (by decide)).starts (by decide)
      obtain ⟨middle, -, hplaced, hbetween, hfits⟩ := h.first_expr hrules rfl hleft
      exact placed_foldOperands parts.tail hplaced hbetween hfits he
  | unaryExpr =>
      obtain ⟨operand, hoperand, he⟩ := need_bind (Option.some.inj he)
      obtain rfl := Except.ok.inj he
      split
      · exact h.node (h.expr hoperand)
      · split
        · exact h.node (h.expr hoperand)
        · split
          · exact h.node (h.expr hoperand)
          · exact h.placed (h.expr hoperand)
  | postfixExpr =>
      obtain ⟨target, htarget, he⟩ := need_bind (Option.some.inj he)
      obtain rfl := Except.ok.inj he
      split
      · exact h.node (h.expr htarget)
      · exact h.placed (h.expr htarget)
  | callExpr =>
      obtain ⟨target, htarget, he⟩ := need_bind (Option.some.inj he)
      obtain rfl := Except.ok.inj he
      obtain ⟨rules, hrules⟩ := (h.labels (by decide)).starts (by decide)
      obtain ⟨middle, -, hplaced, hbetween, hfits⟩ := h.first_expr hrules rfl htarget
      exact placed_foldTrailers parts.tail hplaced hbetween hfits
  | newCallee =>
      obtain ⟨head, hhead, he⟩ := need_bind (Option.some.inj he)
      obtain rfl := Except.ok.inj he
      obtain ⟨rules, hrules⟩ := (h.labels (by decide)).starts (by decide)
      obtain ⟨part, rest, rfl, hrule, hpart, hstart, hstop, hbetween, hfits⟩ := h.first_part hrules
      obtain rfl : part = head := by
        simp only [partOf?, List.find?_cons, hrule, decide_true] at hhead
        exact Option.some.inj hhead
      have hhead : Placed text part.start.offset part.stop.offset [.expr part.identExpr] :=
        hpart.stands.named (by rw [hrule]; rfl)
      exact placed_foldTrailers rest (hhead.widen hstart (Nat.le_refl _)) hbetween hfits
  | newExpr =>
      obtain ⟨callee, hcallee, he⟩ := need_bind (Option.some.inj he)
      obtain rfl := Except.ok.inj he
      exact h.node (h.append (h.expr hcallee) h.args (by decide))
  | arrayLit =>
      obtain rfl := Except.ok.inj (Option.some.inj he)
      exact h.node (h.exprs (.refl _))
  | objectLit =>
      obtain rfl := Except.ok.inj (Option.some.inj he)
      exact h.node h.properties
  | number =>
      have hnumber := Option.some.inj he
      split at hnumber
      · rename_i value hvalue
        obtain rfl := Except.ok.inj hnumber
        exact h.alone rfl (by simp [Phrase.names]) rfl rfl (h.isRead_number hvalue)
      · contradiction
  | string =>
      obtain ⟨content, -, he⟩ := need_bind (Option.some.inj he)
      obtain rfl := Except.ok.inj he
      exact h.alone
  | boolean =>
      obtain rfl := Except.ok.inj (Option.some.inj he)
      exact h.alone rfl (by simp [Phrase.names]) rfl rfl h.isRead_boolean
  | nullLit =>
      obtain rfl := Except.ok.inj (Option.some.inj he)
      exact h.alone rfl (by simp [Phrase.names]) rfl rfl h.isRead_nullLit
  | regex =>
      obtain rfl := Except.ok.inj (Option.some.inj he)
      exact h.alone
  | template =>
      obtain rfl := Except.ok.inj (Option.some.inj he)
      have hall := h.exprs (.refl (exprsOf parts))
      rw [← exprs_templateOf] at hall
      exact h.node hall
  | _ => contradiction

/-! ## Pieces -/

/-- The whole meaning of a part. -/
theorem placed_meaning (h : Standing text rule whole parts) (meaning : Meaning)
    (hmeaning : meaning ∈ parts.map Part.meaning) :
    Placed text whole.start.offset whole.stop.offset meaning.phrases := by
  obtain ⟨part, hpart, rfl⟩ := List.mem_map.1 hmeaning
  exact h.placed (h.part hpart)

theorem moves_of_category {r : Rule} (h : categoryOf r = .declaration ∨ categoryOf r = .expr) :
    mayBeEmpty r = false := by
  revert h
  cases r <;> decide

/-- How a counting loop starts. -/
theorem placed_init (h : Standing text rule whole parts) :
    Placed text whole.start.offset whole.stop.offset
      ((parts.head?.bind fun part => match part.meaning with
        | .declaration kind declarators => some (.declare kind declarators part.span)
        | .expr value => some (.exprStmt value part.span)
        | _ => none).toList.map .stmt) := by
  cases hparts : parts with
  | nil => exact .nil text _ _
  | cons part rest =>
      have hmem : part ∈ parts := by simp [hparts]
      have hfits := h.fits part hmem
      have hplaced := hfits.placed
      have hcategory := hfits.category_eq
      have hstretch := hfits.stands.stretch
      have hmoves := hfits.stands.moves
      obtain ⟨hstart, hstop⟩ := hfits.stands.span_ends
      have honly : only part.rule part.rule = true := decide_eq_true rfl
      refine h.placed (single hmem honly ?_)
      dsimp only [List.head?_cons, Option.bind_some]
      split
      · rename_i heq
        rw [heq] at hplaced hcategory
        exact hplaced.whole hstretch hstart hstop (hmoves (moves_of_category (.inl hcategory.symm)))
          (by simp [Phrase.names]) trivial
      · rename_i heq
        rw [heq] at hplaced hcategory
        exact hplaced.whole hstretch hstart hstop (hmoves (moves_of_category (.inr hcategory.symm)))
          (by simp [Phrase.names]) trivial
      · exact .nil text _ _

/-- A trailer has the meaning of the access or the call that it is. -/
theorem category_trailer {part : Part} (h : Standing text .trailer whole [part]) :
    part.meaning.category = .trailer := by
  have hall : ∀ r ∈ (body .trailer).mentions, categoryOf r = .trailer := by decide
  rw [(h.fits part List.mem_cons_self).category_eq]
  exact hall part.rule (h.mem_mentions List.mem_cons_self (by decide))

theorem assembled_piece (h : Standing text rule whole parts) {meaning : Meaning}
    (hmeaning : assemblePiece rule whole parts = .ok meaning)
    (hstmt : ofKind .stmt rule = false) (hexpr : ofKind .expr rule = false)
    (hpattern : ofKind .pattern rule = false) : Assembled text whole rule meaning := by
  cases rule with
  | paramList =>
      obtain rfl := Except.ok.inj hmeaning
      exact ⟨rfl, h.placed (h.patterns (.refl _)), trivial⟩
  | patternSlot =>
      obtain rfl := Except.ok.inj hmeaning
      refine ⟨rfl, ?_, trivial⟩
      cases hvalue : (patternsOf parts).head? with
      | none => exact .nil text _ _
      | some value => exact h.placed (h.pattern hvalue)
  | patternPair =>
      dsimp only [assemblePiece] at hmeaning
      split at hmeaning
      · rename_i key target heq
        obtain rfl := Except.ok.inj hmeaning
        have htarget : .pattern target ∈ parts.map Part.meaning := by simp [heq]
        have hrest : target.isRest = false := by
          have honly : TakesOnly .patternPair .pattern [.bindingElement] := by decide
          obtain ⟨r, hr, hgives⟩ := h.givesPattern honly htarget
          rw [List.mem_singleton.1 hr] at hgives
          simpa [Script.givesPattern] using hgives
        exact ⟨rfl, h.placed_meaning (.pattern target) htarget,
          fun hisRest => absurd (hrest.symm.trans hisRest) Bool.false_ne_true⟩
      · contradiction
  | patternProp =>
      dsimp only [assemblePiece] at hmeaning
      split at hmeaning
      · rename_i target
        obtain rfl := Except.ok.inj hmeaning
        exact ⟨rfl, h.placed_meaning (.pattern target) (by simp), fun _ => rfl⟩
      · rename_i key target
        obtain rfl := Except.ok.inj hmeaning
        have hkey := (h.fits _ List.mem_cons_self).proper
        exact ⟨rfl, h.placed_meaning (.patternProperty key target) (by simp), hkey⟩
      · rename_i r _ _ _ target hrule
        obtain ⟨name, -, hmeaning⟩ := need_bind hmeaning
        obtain rfl := Except.ok.inj hmeaning
        have hrest : target.isRest = false := by
          have hfits := h.fits _ List.mem_cons_self
          have hgives : Script.givesPattern r target = true := hfits.proper
          have honly : TakesOnly .patternProp .pattern [.restElement, .patternShorthand] := by
            decide
          rcases List.mem_cons.1 (h.rule_mem honly List.mem_cons_self rfl) with hisRest | hmem
          · exact (hrule hisRest).elim
          · obtain rfl := List.mem_singleton.1 hmem
            simpa [Script.givesPattern] using hgives
        exact ⟨rfl, h.placed_meaning (.pattern target) (by simp),
          fun hisRest => absurd (hrest.symm.trans hisRest) Bool.false_ne_true⟩
      · contradiction
  | declarator =>
      obtain ⟨target, htarget, hmeaning⟩ := need_bind hmeaning
      obtain rfl := Except.ok.inj hmeaning
      exact ⟨rfl, h.node (h.append (h.pattern htarget) h.expr? (by decide))
        (by simp [Phrase.names]) rfl rfl ⟨h.isTarget (by decide) htarget, h.isGuarded⟩, trivial⟩
  | varDecl =>
      obtain ⟨keyword, -, hmeaning⟩ := need_bind hmeaning
      obtain rfl := Except.ok.inj hmeaning
      exact ⟨rfl, h.placed h.declarators, trivial⟩
  | forInit =>
      obtain rfl := Except.ok.inj hmeaning
      exact ⟨rfl, h.placed_init, trivial⟩
  | forTest | forUpdate =>
      obtain rfl := Except.ok.inj hmeaning
      exact ⟨rfl, h.placed h.expr?, trivial⟩
  | switchCase =>
      obtain rfl := Except.ok.inj hmeaning
      exact ⟨rfl, h.node (h.append h.expr? (h.stmts (.refl _)) (by decide)), trivial⟩
  | catchClause =>
      obtain ⟨body, hbody, hmeaning⟩ := need_bind hmeaning
      obtain rfl := Except.ok.inj hmeaning
      exact ⟨rfl, h.placed (h.stmt hbody), fun name hname => h.accepted (Option.mem_toList.1 hname)⟩
  | methodDef =>
      obtain ⟨name, -, hmeaning⟩ := need_bind hmeaning
      obtain ⟨body, hbody, hmeaning⟩ := need_bind hmeaning
      obtain rfl := Except.ok.inj hmeaning
      exact ⟨rfl, h.node (h.append h.params (h.stmt hbody) (by decide)), _, _, _, rfl⟩
  | classField =>
      obtain ⟨name, -, hmeaning⟩ := need_bind hmeaning
      obtain rfl := Except.ok.inj hmeaning
      exact ⟨rfl, h.node h.expr?, trivial⟩
  | classMember =>
      dsimp only [assemblePiece] at hmeaning
      split at hmeaning
      · rename_i name isStatic function heq
        obtain rfl := Except.ok.inj hmeaning
        have hmethod := h.placed_meaning (.method name isStatic function) (by simp [heq])
        exact ⟨rfl, hmethod.member name isStatic, trivial⟩
      · rename_i value heq
        obtain rfl := Except.ok.inj hmeaning
        exact ⟨rfl, h.placed_meaning (.member value) (by simp [heq]), trivial⟩
      · obtain rfl := Except.ok.inj hmeaning
        exact ⟨rfl, .nil text _ _, trivial⟩
      · contradiction
  | propertyPair =>
      dsimp only [assemblePiece] at hmeaning
      split at hmeaning
      · rename_i keySpan _ _ _ _ _ value
        obtain rfl := Except.ok.inj hmeaning
        have hvalue := h.placed_meaning (.expr value) (by simp)
        exact ⟨rfl, hvalue.ofProperty _, trivial⟩
      · contradiction
  | propertyShorthand =>
      obtain rfl := Except.ok.inj hmeaning
      exact ⟨rfl, h.stands.named (by rw [h.rule_eq]; rfl), trivial⟩
  | property =>
      dsimp only [assemblePiece] at hmeaning
      split at hmeaning
      · rename_i key keySpan value
        obtain rfl := Except.ok.inj hmeaning
        exact ⟨rfl, h.placed_meaning (.property key keySpan value) (by simp), trivial⟩
      · rename_i name isStatic function
        obtain rfl := Except.ok.inj hmeaning
        have hmethod := h.placed_meaning (.method name isStatic function) (by simp)
        obtain ⟨params, isAsync, body, hfunction⟩ := (h.fits _ List.mem_cons_self).proper
        rw [hfunction] at hmethod ⊢
        exact ⟨rfl, by simpa [Meaning.phrases, Phrase.ofProperty] using hmethod, trivial⟩
      · rename_i value
        obtain rfl := Except.ok.inj hmeaning
        have hvalue := h.placed_meaning (.expr value) (by simp)
        exact ⟨rfl, hvalue.ofProperty _, trivial⟩
      · contradiction
  | propertyKey =>
      dsimp only [assemblePiece] at hmeaning
      split at hmeaning
      · obtain rfl := Except.ok.inj hmeaning
        exact ⟨rfl, .nil text _ _, trivial⟩
      · obtain rfl := Except.ok.inj hmeaning
        exact ⟨rfl, .nil text _ _, trivial⟩
      · contradiction
  | arrowParams =>
      dsimp only [assemblePiece] at hmeaning
      split at hmeaning
      · rename_i part hpart
        obtain rfl := Except.ok.inj hmeaning
        exact ⟨rfl, h.placed (h.named hpart), trivial⟩
      · obtain rfl := Except.ok.inj hmeaning
        exact ⟨rfl, h.placed h.params, trivial⟩
  | arrowBody =>
      dsimp only [assemblePiece] at hmeaning
      split at hmeaning
      · rename_i body heq
        obtain rfl := Except.ok.inj hmeaning
        exact ⟨rfl, h.placed_meaning (.stmt body) (by simp [heq]), trivial⟩
      · rename_i value heq
        obtain rfl := Except.ok.inj hmeaning
        exact ⟨rfl, h.placed_meaning (.expr value) (by simp [heq]), trivial⟩
      · contradiction
  | trailer =>
      dsimp only [assemblePiece] at hmeaning
      split at hmeaning
      · rename_i part
        obtain rfl := Except.ok.inj hmeaning
        have hproper := (h.fits part List.mem_cons_self).proper
        have hcategory := h.category_trailer
        refine ⟨hcategory, h.placed_meaning _ (by simp), ?_⟩
        unfold Part.Proper at hproper ⊢
        cases hpart : part.meaning with
        | args | index => trivial
        | access =>
            rw [hpart] at hproper
            exact hproper
        | _ =>
            rw [hpart] at hcategory
            contradiction
      · contradiction
  | callSuffix =>
      obtain rfl := Except.ok.inj hmeaning
      exact ⟨rfl, h.placed h.args, trivial⟩
  | argList =>
      obtain rfl := Except.ok.inj hmeaning
      exact ⟨rfl, h.placed (h.exprs (.refl _)), trivial⟩
  | optionalAccess | regularAccess =>
      obtain ⟨name, hname, hmeaning⟩ := need_bind hmeaning
      obtain rfl := Except.ok.inj hmeaning
      exact ⟨rfl, .nil text _ _, h.isName hname⟩
  | indexAccess =>
      obtain ⟨value, hvalue, hmeaning⟩ := need_bind hmeaning
      obtain rfl := Except.ok.inj hmeaning
      exact ⟨rfl, h.placed (h.expr hvalue), trivial⟩
  | _ =>
      first
        | exact absurd hstmt (by decide)
        | exact absurd hexpr (by decide)
        | exact absurd hpattern (by decide)
        | obtain rfl := Except.ok.inj hmeaning
          exact ⟨rfl, .nil text _ _, trivial⟩

end Standing

/-! ## Any rule -/

theorem isSome_assembleStmt? (rule : Rule) (whole : Part) (parts : List Part) :
    (assembleStmt? rule whole parts).isSome = ofKind .stmt rule := by
  cases rule <;> rfl

theorem isSome_assembleExpr? (rule : Rule) (whole : Part) (parts : List Part) :
    (assembleExpr? rule whole parts).isSome = ofKind .expr rule := by
  cases rule <;> rfl

theorem isSome_assemblePattern? (rule : Rule) (whole : Part) (parts : List Part) :
    (assemblePattern? rule whole parts).isSome = ofKind .pattern rule := by
  cases rule <;> rfl

theorem map_ok {α β : Type} {f : α → β} {x : Except AssemblyError α} {b : β}
    (h : x.map f = .ok b) : ∃ a, x = .ok a ∧ f a = b := by
  cases x with
  | error error => contradiction
  | ok a => exact ⟨a, rfl, Except.ok.inj h⟩

/-- The meaning of a tree is of the kind of its rule, and its phrases are placed between
the ends of the tree. -/
theorem Standing.assembled {text : List Char} {rule : Rule} {whole : Part} {parts : List Part}
    (h : Standing text rule whole parts) {meaning : Meaning}
    (hmeaning : assemble rule whole parts = .ok meaning) : Assembled text whole rule meaning := by
  have hisStmt := isSome_assembleStmt? rule whole parts
  have hisExpr := isSome_assembleExpr? rule whole parts
  have hisPattern := isSome_assemblePattern? rule whole parts
  unfold assemble at hmeaning
  split at hmeaning
  · rename_i hstmt
    obtain ⟨stmt, rfl, rfl⟩ := map_ok hmeaning
    rw [hstmt] at hisStmt
    exact ⟨(of_decide_eq_true hisStmt.symm).symm, h.placed_stmt hstmt, trivial⟩
  · rename_i hstmt
    split at hmeaning
    · rename_i hexpr
      obtain ⟨e, rfl, rfl⟩ := map_ok hmeaning
      rw [hexpr] at hisExpr
      exact ⟨(of_decide_eq_true hisExpr.symm).symm, h.placed_expr hexpr, trivial⟩
    · rename_i hexpr
      split at hmeaning
      · rename_i hpattern
        obtain ⟨pattern, rfl, rfl⟩ := map_ok hmeaning
        rw [hpattern] at hisPattern
        refine ⟨(of_decide_eq_true hisPattern.symm).symm, h.placed_pattern hpattern, ?_⟩
        change Script.givesPattern whole.rule pattern = true
        rw [h.rule_eq]
        exact h.givesPattern_assembled hpattern
      · rename_i hpattern
        rw [hstmt] at hisStmt
        rw [hexpr] at hisExpr
        rw [hpattern] at hisPattern
        exact h.assembled_piece hmeaning hisStmt.symm hisExpr.symm hisPattern.symm

end EventLoop.Script
