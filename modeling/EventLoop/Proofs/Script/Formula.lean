import EventLoop.Proofs.Script.Names
import EventLoop.Script.Render

/-!
# Formulas

Formulas are the expressions that are made of names, plain values, lists, accesses, calls and
operators.  The text of a formula, as of any other operation, is that of its parts, some of them in
parentheses, with brackets and operators between (`text_list` to `text_sequence`).
-/

namespace EventLoop.Script

/-! ## Texts with commas between -/

/-- Texts, each of them behind a comma. -/
def commaed (texts : List (List Char)) : List Char :=
  texts.flatMap fun text => ',' :: ' ' :: text

/-- Texts with commas between. -/
def joined : List (List Char) → List Char
  | [] => []
  | text :: texts => text ++ commaed texts

theorem toList_commaSeparated (texts : List String) :
    (commaSeparated texts).toList = joined (texts.map String.toList) := by
  rw [commaSeparated, String.toList_intercalate]
  change [',', ' '].intercalate (texts.map String.toList) = _
  cases texts.map String.toList with
  | nil => rfl
  | cons text texts =>
      rw [joined]
      induction texts generalizing text with
      | nil => rw [commaed, List.intercalate_singleton, List.flatMap_nil, List.append_nil]
      | cons next texts ih =>
          rw [List.intercalate_cons_cons, ih next, commaed, commaed, List.flatMap_cons]
          simp

namespace Expr

/-- An expression of names, truth values, texts of one line, lists, accesses, calls and
operators. -/
inductive IsFormula : Expr → Prop where
  | ident {name : String} (h : IsIdentifier name) (span : Span) : IsFormula (.ident name span)
  | bool (value : Bool) (span : Span) : IsFormula (.bool value span)
  | null (span : Span) : IsFormula (.null span)
  | string {value : String} (h : ∀ c ∈ value.toList, isLineEnd c = false) (span : Span) :
      IsFormula (.string value span)
  | list {elements : List Expr} (h : ∀ e ∈ elements, IsFormula e) (span : Span) :
      IsFormula (.list elements span)
  | member {owner : Expr} {property : String} (h : IsFormula owner)
      (hproperty : IsName property.toList) (propertySpan : Span) (isOptional : Bool) (span : Span) :
      IsFormula (.member owner property propertySpan isOptional span)
  | index {owner index : Expr} (h : IsFormula owner) (hindex : IsFormula index) (span : Span) :
      IsFormula (.index owner index span)
  | call {callee : Expr} {args : List Expr} (h : IsFormula callee)
      (hargs : ∀ e ∈ args, IsFormula e) (span : Span) : IsFormula (.call callee args span)
  | await {inner : Expr} (h : IsFormula inner) (span : Span) : IsFormula (.await inner span)
  | unary (op : UnaryOp) {operand : Expr} (h : IsFormula operand) (span : Span) :
      IsFormula (.unary op operand span)
  | binary (op : BinaryOp) {left right : Expr} (h : IsFormula left) (hright : IsFormula right)
      (span : Span) : IsFormula (.binary op left right span)

mutual

/-- A formula without its spans. -/
def bare : Expr → Expr
  | .ident name _ => .ident name .zero
  | .bool value _ => .bool value .zero
  | .null _ => .null .zero
  | .string value _ => .string value .zero
  | .list elements _ => .list (bareAll elements) .zero
  | .member owner property _ isOptional _ => .member owner.bare property .zero isOptional .zero
  | .index owner position _ => .index owner.bare position.bare .zero
  | .call callee args _ => .call callee.bare (bareAll args) .zero
  | .await inner _ => .await inner.bare .zero
  | .unary op operand _ => .unary op operand.bare .zero
  | .binary op left right _ => .binary op left.bare right.bare .zero
  | e => e

/-- Formulas without their spans. -/
def bareAll : List Expr → List Expr
  | [] => []
  | e :: es => e.bare :: bareAll es

end

/-! ## Texts -/

/-- The text of an expression, perhaps in parentheses. -/
def sided (grouped : Bool) (e : Expr) : List Char :=
  (parenthesized grouped e.render).toList

theorem sided_false (e : Expr) : e.sided false = e.render.toList :=
  rfl

theorem sided_true (e : Expr) : e.sided true = '(' :: (e.render.toList ++ [')']) := by
  simp [sided, parenthesized]

/-- The text of an expression between commas. -/
def item (e : Expr) : List Char :=
  e.sided e.isSequence

/-- The texts of expressions, each of them behind a comma. -/
def listed (es : List Expr) : List Char :=
  es.flatMap fun e => ',' :: ' ' :: e.item

/-- The texts of expressions with commas between. -/
def itemized : List Expr → List Char
  | [] => []
  | e :: es => e.item ++ listed es

theorem toList_renderItems (es : List Expr) : (renderItems es).map String.toList = es.map item := by
  induction es with
  | nil => rw [renderItems, List.map_nil, List.map_nil]
  | cons e es ih =>
      rw [renderItems, List.map_cons, ih]
      rfl

theorem listed_eq (es : List Expr) : listed es = commaed (es.map item) := by
  rw [listed, commaed, List.flatMap_map]

theorem itemized_eq (es : List Expr) : itemized es = joined (es.map item) := by
  cases es with
  | nil => rfl
  | cons e es => rw [itemized, List.map_cons, joined, listed_eq]

theorem toList_items (es : List Expr) :
    (commaSeparated (renderItems es)).toList = itemized es := by
  rw [toList_commaSeparated, toList_renderItems, itemized_eq]

theorem text_list (elements : List Expr) (span : Span) :
    (Expr.list elements span).render.toList = '[' :: (itemized elements ++ [']']) := by
  change ("[" ++ commaSeparated (renderItems elements) ++ "]").toList = _
  rw [String.toList_append, String.toList_append, toList_items]
  rfl

theorem text_member (owner : Expr) (property : String) (propertySpan : Span) (isOptional : Bool)
    (span : Span) : (Expr.member owner property propertySpan isOptional span).render.toList =
      owner.sided owner.isLoose ++
        ((if isOptional then ['?', '.'] else ['.']) ++ property.toList) := by
  change (parenthesized owner.isLoose owner.render ++ (if isOptional then "?." else ".") ++
    property).toList = _
  rw [String.toList_append, String.toList_append, List.append_assoc]
  cases isOptional <;> rfl

theorem text_index (owner position : Expr) (span : Span) :
    (Expr.index owner position span).render.toList =
      owner.sided owner.isLoose ++ '[' :: (position.render.toList ++ [']']) := by
  change (parenthesized owner.isLoose owner.render ++ "[" ++ position.render ++ "]").toList = _
  simp [sided]

theorem text_call (callee : Expr) (args : List Expr) (span : Span) :
    (Expr.call callee args span).render.toList =
      callee.sided callee.isLoose ++ '(' :: (itemized args ++ [')']) := by
  change (parenthesized callee.isLoose callee.render ++ "(" ++
    commaSeparated (renderItems args) ++ ")").toList = _
  rw [String.toList_append, String.toList_append, String.toList_append, toList_items]
  simp [sided]

theorem text_await (inner : Expr) (span : Span) :
    (Expr.await inner span).render.toList = "await ".toList ++ inner.sided inner.isLoose :=
  String.toList_append

theorem text_unary (op : UnaryOp) (operand : Expr) (span : Span) :
    (Expr.unary op operand span).render.toList =
      op.symbol.toList ++ operand.sided operand.isLoose :=
  String.toList_append

theorem text_update (op : UpdateOp) (leading : Bool) (target : Expr) (span : Span) :
    (Expr.update op leading target span).render.toList =
      if leading then op.symbol.toList ++ target.sided target.isLoose
      else target.sided target.isLoose ++ op.symbol.toList := by
  cases leading with
  | true => exact String.toList_append
  | false => exact String.toList_append

theorem text_binary (op : BinaryOp) (left right : Expr) (span : Span) :
    (Expr.binary op left right span).render.toList =
      left.sided (left.needsGrouping op false) ++
        ' ' :: (op.symbol.toList ++ ' ' :: right.sided (right.needsGrouping op true)) := by
  change (parenthesized (left.needsGrouping op false) left.render ++ " " ++ op.symbol ++ " " ++
    parenthesized (right.needsGrouping op true) right.render).toList = _
  simp [sided]

theorem text_assign (op : AssignOp) (target value : Expr) (span : Span) :
    (Expr.assign op target value span).render.toList =
      target.sided false ++ ' ' :: (op.symbol.toList ++ ' ' :: value.sided false) := by
  change (target.render ++ " " ++ op.symbol ++ " " ++ value.render).toList = _
  simp [sided, parenthesized]

theorem text_ternary (condition consequent alternate : Expr) (span : Span) :
    (Expr.ternary condition consequent alternate span).render.toList =
      condition.sided false ++
        ' ' :: '?' :: ' ' ::
          (consequent.sided false ++ ' ' :: ':' :: ' ' :: alternate.sided false) := by
  change (condition.render ++ " ? " ++ consequent.render ++ " : " ++ alternate.render).toList = _
  simp [sided, parenthesized]

theorem text_sequence (exprs : List Expr) (span : Span) :
    (Expr.sequence exprs span).render.toList = itemized exprs :=
  toList_items exprs

end Expr

end EventLoop.Script
