import EventLoop.Proofs.Script.Grouped
import EventLoop.Proofs.Script.Identifier

/-!
# Where grouped expressions start and end

The text of a grouped expression starts with a name, a quote, a bracket or a sign
(`IsGrouped.start`), and behind it follows a closing bracket, a comma, a colon, an operator or
nothing (`Follows`).
-/

namespace EventLoop.Script

open Peg

variable {e : Expr} {place after : Cursor}

/-! ## What follows an expression -/

/-- What follows at a place, perhaps behind layout: one of some starts, and no name goes on. -/
structure Follows (starts : List Start) (after : Cursor) : Prop where
  word : startsInName after.rest = false
  start : ∃ start ∈ starts, start.At (skipLayout after)

/-- What ends an expression: a closing bracket or brace, a comma, a colon before a space or the end
of the text. -/
def closers : List Start :=
  [.nothing, .text [')'], .text [']'], .text ['\x7d'], .text [','], .text [':', ' ']]

/-- All operators between two operands. -/
def BinaryOp.all : List BinaryOp :=
  [.add, .sub, .mul, .div, .mod, .pow, .eq, .strictEq, .ne, .strictNe, .lt, .lte, .gt, .gte,
   .instanceOf, .isIn, .and, .or, .nullish]

/-- An operator before a space. -/
def BinaryOp.start (op : BinaryOp) : Start :=
  .text (op.symbol.toList ++ [' '])

/-- An operator of an assignment before a space. -/
def AssignOp.start (op : AssignOp) : Start :=
  .text (op.symbol.toList ++ [' '])

/-- A question mark before a space. -/
def questionMark : Start :=
  .text ['?', ' ']

/-- What ends an expression whose operators bind at least as tightly as a bound. -/
def ends (bound : Nat) : List Start :=
  closers ++ questionMark :: (BinaryOp.all.filter (·.precedence < bound)).map BinaryOp.start

/-- Operators that count a variable up or down. -/
def counters : List Start :=
  [.text ['+', '+'], .text ['-', '-']]

/-- Operators of assignments with an operation. -/
def reckoners : List Start :=
  [AssignOp.start .add, AssignOp.start .sub, AssignOp.start .mul, AssignOp.start .div]

/-- What ends an operand with the accesses and calls behind it. -/
def operandEnds : List Start :=
  ends 9 ++ (AssignOp.start .assign :: counters ++ reckoners)

theorem at_operator {symbol : List Char} (hsolid : isSolid (symbol ++ [' ']) = true)
    {rest : List Char} {stop : Cursor} (hdrop : place.drop? (symbol ++ ' ' :: rest) = some stop) :
    (Start.text (symbol ++ [' '])).At place := by
  have hspace : place.drop? (symbol ++ [' '] ++ rest) = some stop := by
    rwa [List.append_assoc]
  exact Start.at_text hsolid hspace

namespace Follows

variable {starts others : List Start}

theorem refused (h : Follows starts after) {mode : Mode} {f : Peg.Expr Rule}
    (hf : ∀ start ∈ starts, start.refuses f = true) :
    Derives grammar mode f (skipLayout after) none := by
  obtain ⟨start, hstart, hat⟩ := h.start
  exact hat.refused (hf start hstart)

theorem mono (h : Follows starts after) (hsub : starts ⊆ others) : Follows others after := by
  obtain ⟨start, hstart, hat⟩ := h.start
  exact ⟨h.word, start, hsub hstart, hat⟩

/-- A text that starts with no layout follows. -/
theorem of_text (known : List Char) {rest : List Char} {stop : Cursor} (hknown : .text known ∈ starts)
    (hsolid : isSolid known = true) (hword : startsInName known = false)
    (hdrop : after.drop? (known ++ rest) = some stop) : Follows starts after := by
  have hat := Start.at_text hsolid hdrop
  refine ⟨?_, _, hknown, hat.settled.symm ▸ hat⟩
  obtain ⟨hread, -⟩ := Cursor.drop?_eq_some_iff.1 hdrop
  rw [hread]
  cases known with
  | nil => contradiction
  | cons c known => exact hword

/-- An operator between spaces follows. -/
theorem of_operator {symbol : List Char} (hsymbol : .text (symbol ++ [' ']) ∈ starts)
    (hsolid : isSolid (symbol ++ [' ']) = true) {rest : List Char} {stop : Cursor}
    (hdrop : after.drop? (' ' :: (symbol ++ ' ' :: rest)) = some stop) : Follows starts after := by
  obtain ⟨offset, read, rfl, hbehind⟩ := Cursor.drop?_cons_eq_some hdrop
  refine ⟨rfl, _, hsymbol, ?_⟩
  rw [skipLayout_space]
  have hat := at_operator hsolid hbehind
  exact hat.settled.symm ▸ hat

end Follows

/-- An operator that counts up or down follows. -/
theorem follows_counter {op : UpdateOp} (hdrop : place.drop? op.symbol.toList = some after) :
    Follows counters place ∧ skipLayout place = place := by
  have hsymbol : place.drop? (op.symbol.toList ++ []) = some after := by
    rwa [List.append_nil]
  cases op with
  | increment =>
      exact ⟨.of_text ['+', '+'] (by decide) rfl rfl hsymbol, (Start.at_text rfl hsymbol).settled⟩
  | decrement =>
      exact ⟨.of_text ['-', '-'] (by decide) rfl rfl hsymbol, (Start.at_text rfl hsymbol).settled⟩

/-! ## What an expression starts with -/

/-- Starts of plain values. -/
def plainStarts : List Start :=
  [.keyword "true", .keyword "false", .keyword "null", .text ['\x27']]

/-- Starts of names. -/
def nameStarts : List Start :=
  [.name, .keyword "instanceof"]

/-- Starts of operands. -/
def operandStarts : List Start :=
  nameStarts ++ [.text ['['], .text ['(']] ++ plainStarts

/-- Starts of operators before an operand. -/
def signStarts : List Start :=
  [.text ['!'], .text ['-'], .text ['+'], .keyword "typeof", .keyword "await"]

/-- A name that is accepted starts like a name, if it is no keyword. -/
theorem IsAccepted.start {name : String} (h : IsAccepted name)
    (hdrop : place.drop? name.toList = some after) (hword : startsInName after.rest = false) :
    ∃ start ∈ nameStarts, start.At place := by
  obtain ⟨hname, hfree⟩ := h
  by_cases hkeyword : name ∈ keywords
  · obtain rfl := isReserved_eq_false_iff.1 hfree hkeyword
    exact ⟨.keyword "instanceof", by decide, Start.at_keyword hname hdrop hword⟩
  · exact ⟨.name, by decide, Start.at_name ⟨hname, hkeyword⟩ hdrop hword⟩

/-- What most expressions go on with behind the operand at their left. -/
def goesOn : List Start :=
  [.text ['.'], .text ['?', '.'], .text ['('], .text ['['], questionMark] ++ counters ++ reckoners
    ++ BinaryOp.all.map BinaryOp.start

namespace Expr

/-- What an expression goes on with behind the operand at its left. -/
def further : Expr → List Start
  | .assign .assign _ _ _ => [AssignOp.start .assign]
  | .sequence _ _ => [.text [',']]
  | _ => goesOn

/-- Wherever the text of an expression stands, it starts like this. -/
def Opens (starts : List Start) (e : Expr) : Prop :=
  ∀ {place after : Cursor}, place.drop? e.render.toList = some after →
    startsInName after.rest = false → ∃ start ∈ starts, start.At place

/-- An expression has an operand at its left, perhaps in parentheses, and goes on behind it. -/
structure Extends (e inner : Expr) (grouped : Bool) (behind : List Char) : Prop where
  text : e.render.toList = inner.sided grouped ++ behind
  goes : ∀ {place after : Cursor}, place.drop? behind = some after → Follows e.further place
  /-- Only in a list with commas anything stands at the left. -/
  tight : grouped = false → 2 ≤ inner.grade ∨ e.isSequence = true
  sign : grouped = false → inner.grade ≤ 10 → e.grade ≤ 10

section Extensions

variable {owner target left condition : Expr}

theorem Extends.of_operand {inner : Expr} {behind : List Char}
    (hstands : inner.Stands inner.isLoose 11)
    (htext : e.render.toList = inner.sided inner.isLoose ++ behind) (hfurther : e.further = goesOn)
    (hgoes : ∀ {place after : Cursor}, place.drop? behind = some after → Follows goesOn place) :
    Extends e inner inner.isLoose behind where
  text := htext
  goes := by
    rw [hfurther]
    exact hgoes
  tight hfree := by
    have hgrade := hstands.resolve_left (by rw [hfree]; nofun)
    exact .inl (by omega)
  sign hfree hsign := by
    have hgrade := hstands.resolve_left (by rw [hfree]; nofun)
    omega

theorem extends_member (hstands : owner.Stands owner.isLoose 11) (property : String)
    (propertySpan : Span) (isOptional : Bool) (span : Span) :
    Extends (.member owner property propertySpan isOptional span) owner owner.isLoose
      ((if isOptional then ['?', '.'] else ['.']) ++ property.toList) := by
  refine .of_operand hstands (text_member owner property propertySpan isOptional span) rfl
    fun hdrop => ?_
  cases isOptional with
  | true => exact .of_text ['?', '.'] (by decide) rfl rfl hdrop
  | false => exact .of_text ['.'] (by decide) rfl rfl hdrop

theorem extends_index (hstands : owner.Stands owner.isLoose 11) (position : Expr) (span : Span) :
    Extends (.index owner position span) owner owner.isLoose
      ('[' :: (position.render.toList ++ [']'])) :=
  .of_operand hstands (text_index owner position span) rfl (.of_text ['['] (by decide) rfl rfl)

theorem extends_call (hstands : owner.Stands owner.isLoose 11) (args : List Expr) (span : Span) :
    Extends (.call owner args span) owner owner.isLoose ('(' :: (itemized args ++ [')'])) :=
  .of_operand hstands (text_call owner args span) rfl (.of_text ['('] (by decide) rfl rfl)

theorem extends_update (op : UpdateOp) (hstands : target.Stands target.isLoose 11) (span : Span) :
    Extends (.update op false target span) target target.isLoose op.symbol.toList :=
  .of_operand hstands (text_update op false target span) rfl fun hdrop =>
    (follows_counter hdrop).1.mono (by decide)

theorem extends_binary (op : BinaryOp)
    (hstands : left.Stands (left.needsGrouping op false) (op.demand false)) (right : Expr)
    (span : Span) : Extends (.binary op left right span) left (left.needsGrouping op false)
      (' ' :: (op.symbol.toList ++ ' ' :: right.sided (right.needsGrouping op true))) where
  text := text_binary op left right span
  goes hdrop := by
    have hmem : op.start ∈ goesOn := by cases op <;> decide
    exact .of_operator hmem (by cases op <;> decide) hdrop
  tight hfree := by
    have hgrade := hstands.resolve_left (by rw [hfree]; nofun)
    have hdemand : 2 ≤ op.demand false := by cases op <;> decide
    exact .inl (Nat.le_trans hdemand hgrade)
  sign _ _ := by
    have hprecedence : op.precedence ≤ 8 := by cases op <;> decide
    rw [grade]
    omega

theorem extends_assign (op : AssignOp) (hstands : target.Stands false 11) (value : Expr)
    (span : Span) : Extends (.assign op target value span) target false
      (' ' :: (op.symbol.toList ++ ' ' :: value.sided false)) where
  text := text_assign op target value span
  goes hdrop := by
    refine .of_operator ?_ (by cases op <;> decide) hdrop
    cases op with
    | assign => exact List.mem_singleton_self _
    | add | sub | mul | div => exact List.mem_append_left _ (List.mem_append_right _ (by decide))
  tight _ := .inl (Nat.le_trans (by decide) (hstands.resolve_left nofun))
  sign _ _ := (by decide : 1 ≤ 10)

theorem extends_ternary (hstands : condition.Stands false 2) (consequent alternate : Expr)
    (span : Span) : Extends (.ternary condition consequent alternate span) condition false
      (' ' :: '?' :: ' ' :: (consequent.sided false ++
        ' ' :: ':' :: ' ' :: alternate.sided false)) where
  text := text_ternary condition consequent alternate span
  goes hdrop := by
    have hmem : .text (['?'] ++ [' ']) ∈ goesOn := by decide
    exact .of_operator hmem (by decide) hdrop
  tight _ := .inl (hstands.resolve_left nofun)
  sign _ _ := (by decide : 1 ≤ 10)

theorem extends_sequence (first second : Expr) (others : List Expr) (span : Span) :
    Extends (.sequence (first :: second :: others) span) first first.isSequence
      (listed (second :: others)) where
  text := text_sequence _ span
  goes := .of_text [','] (List.mem_singleton_self _) rfl rfl
  tight _ := .inr rfl
  sign _ _ := (by decide : 0 ≤ 10)

end Extensions

theorem opens_keyword (word : String) (htext : e.render = word) (hname : IsName word.toList)
    (hmem : .keyword word ∈ plainStarts) : Opens plainStarts e := by
  intro place after hdrop hword
  rw [htext] at hdrop
  exact ⟨_, hmem, Start.at_keyword hname hdrop hword⟩

theorem opens_bool (value : Bool) (span : Span) : Opens plainStarts (.bool value span) := by
  cases value with
  | true => exact opens_keyword "true" rfl (by decide) (by decide)
  | false => exact opens_keyword "false" rfl (by decide) (by decide)

theorem opens_null (span : Span) : Opens plainStarts (.null span) :=
  opens_keyword "null" rfl (by decide) (by decide)

theorem opens_string (value : String) (span : Span) : Opens plainStarts (.string value span) := by
  intro place after hdrop _
  refine ⟨.text ['\x27'], by decide, ?_⟩
  rw [render, Text.quote, String.toList_ofList] at hdrop
  exact Start.at_text rfl hdrop

theorem opens_await (inner : Expr) (span : Span) : Opens signStarts (.await inner span) := by
  intro place after hdrop hword
  rw [text_await] at hdrop
  exact ⟨.keyword "await", by decide, Start.at_keyword_space (by decide) hdrop⟩

theorem opens_unary (op : UnaryOp) (operand : Expr) (span : Span) :
    Opens signStarts (.unary op operand span) := by
  intro place after hdrop hword
  rw [text_unary] at hdrop
  cases op with
  | not => exact ⟨.text ['!'], by decide, Start.at_text rfl hdrop⟩
  | neg => exact ⟨.text ['-'], by decide, Start.at_text rfl hdrop⟩
  | plus => exact ⟨.text ['+'], by decide, Start.at_text rfl hdrop⟩
  | typeof => exact ⟨.keyword "typeof", by decide, Start.at_keyword_space (by decide) hdrop⟩

theorem opens_update (op : UpdateOp) (target : Expr) (span : Span) :
    Opens signStarts (.update op true target span) := by
  intro place after hdrop hword
  rw [text_update] at hdrop
  cases op with
  | increment => exact ⟨.text ['+'], by decide, Start.at_text rfl hdrop⟩
  | decrement => exact ⟨.text ['-'], by decide, Start.at_text rfl hdrop⟩

/-- Induction on the operand at the left of a grouped expression. -/
theorem IsGrouped.leftmost {motive : ∀ e : Expr, IsGrouped e → Prop}
    (ident : ∀ {name : String} (h : IsAccepted name) (span : Span),
      motive (.ident name span) (.ident h span))
    (list : ∀ {elements : List Expr} (h : ∀ e ∈ elements, IsGrouped e) (span : Span),
      motive (.list elements span) (.list h span))
    (plain : ∀ {e : Expr} (h : IsGrouped e), Opens plainStarts e → motive e h)
    (sign : ∀ {e : Expr} (h : IsGrouped e), Opens signStarts e → e.grade ≤ 10 → motive e h)
    (extended : ∀ {e inner : Expr} {grouped : Bool} {behind : List Char} (h : IsGrouped e)
      (hinner : IsGrouped inner), Extends e inner grouped behind → motive inner hinner → motive e h)
    {e : Expr} (h : IsGrouped e) : motive e h := by
  induction h with
  | ident hname span => exact ident hname span
  | bool value span => exact plain _ (opens_bool value span)
  | null span => exact plain _ (opens_null span)
  | string _ span => exact plain _ (opens_string _ span)
  | list helements span => exact list helements span
  | member h hstands _ _ _ span ih => exact extended _ h (extends_member hstands ..) ih
  | index h hstands _ span ih => exact extended _ h (extends_index hstands ..) ih
  | call h hstands _ span ih => exact extended _ h (extends_call hstands ..) ih
  | await _ _ span => exact sign _ (opens_await _ span) (Nat.le_refl 10)
  | unary op _ _ span => exact sign _ (opens_unary op _ span) (Nat.le_refl 10)
  | @update op leading target h hstands span ih =>
      cases leading with
      | true => exact sign _ (opens_update op target span) (Nat.le_refl 10)
      | false => exact extended _ h (extends_update op hstands span) ih
  | binary op h _ hstands _ span ih => exact extended _ h (extends_binary op hstands ..) ih
  | assign op h _ hstands _ span ih => exact extended _ h (extends_assign op hstands ..) ih
  | ternary h _ _ hstands _ _ span ih => exact extended _ h (extends_ternary hstands ..) ih
  | @sequence exprs hexprs hmany span ih =>
      match exprs, hmany with
      | first :: second :: others, _ =>
          exact extended _ (hexprs first List.mem_cons_self)
            (extends_sequence first second others span) (ih first List.mem_cons_self)

/-- An expression that starts at a place starts like an operand, or like a sign if it binds
loosely. -/
def StartsAt (e : Expr) (place : Cursor) : Prop :=
  (∃ start ∈ operandStarts, start.At place) ∨
    e.grade ≤ 10 ∧ ∃ start ∈ signStarts, start.At place

theorem StartsAt.settled (h : e.StartsAt place) : skipLayout place = place := by
  rcases h with ⟨start, -, hat⟩ | ⟨-, start, -, hat⟩
  · exact hat.settled
  · exact hat.settled

theorem StartsAt.refused (h : e.StartsAt place) {mode : Mode} {f : Peg.Expr Rule}
    (hf : ∀ start ∈ operandStarts ++ signStarts, start.refuses f = true) :
    Derives grammar mode f place none := by
  rcases h with ⟨start, hstart, hat⟩ | ⟨-, start, hstart, hat⟩
  · exact hat.refused (hf start (List.mem_append_left _ hstart))
  · exact hat.refused (hf start (List.mem_append_right _ hstart))

/-- How a grouped expression starts. -/
theorem IsGrouped.start (h : IsGrouped e) (hdrop : place.drop? e.render.toList = some after)
    (hword : startsInName after.rest = false) : e.StartsAt place := by
  induction h using IsGrouped.leftmost generalizing place after with
  | ident hname span =>
      obtain ⟨start, hstart, hat⟩ := hname.start hdrop hword
      exact .inl ⟨start, List.mem_append_left _ (List.mem_append_left _ hstart), hat⟩
  | list helements span =>
      rw [text_list] at hdrop
      exact .inl ⟨.text ['['], by decide, Start.at_text rfl hdrop⟩
  | plain _ hopens =>
      obtain ⟨start, hstart, hat⟩ := hopens hdrop hword
      exact .inl ⟨start, List.mem_append_right _ hstart, hat⟩
  | sign _ hopens hgrade => exact .inr ⟨hgrade, hopens hdrop hword⟩
  | @extended _ inner grouped _ _ _ hextends ih =>
      rw [hextends.text] at hdrop
      cases grouped with
      | true =>
          rw [sided_true, List.cons_append] at hdrop
          exact .inl ⟨.text ['('], by decide, Start.at_text rfl hdrop⟩
      | false =>
          obtain ⟨middle, hmiddle, hbehind⟩ := Cursor.drop?_append_eq_some hdrop
          rcases ih hmiddle (hextends.goes hbehind).word with hoperand | ⟨hgrade, hsign⟩
          · exact .inl hoperand
          · exact .inr ⟨hextends.sign rfl hgrade, hsign⟩

/-- No layout stands before a part of a grouped expression. -/
theorem IsGrouped.sided_start (h : IsGrouped e) {grouped : Bool}
    (hdrop : place.drop? (e.sided grouped) = some after) (hword : startsInName after.rest = false) :
    e.StartsAt place := by
  cases grouped with
  | true =>
      rw [sided_true] at hdrop
      exact .inl ⟨.text ['('], by decide, Start.at_text rfl hdrop⟩
  | false => exact h.start hdrop hword

/-- An operand that stands before an access does not start like a sign. -/
theorem IsGrouped.operand_start (h : IsGrouped e) {grouped : Bool} (hstands : e.Stands grouped 11)
    (hdrop : place.drop? (e.sided grouped) = some after) (hword : startsInName after.rest = false) :
    ∃ start ∈ operandStarts, start.At place := by
  cases grouped with
  | true =>
      rw [sided_true] at hdrop
      exact ⟨.text ['('], by decide, Start.at_text rfl hdrop⟩
  | false =>
      rcases h.start hdrop hword with hoperand | ⟨hgrade, -⟩
      · exact hoperand
      · have hle := hstands.resolve_left nofun
        omega

end Expr

end EventLoop.Script
