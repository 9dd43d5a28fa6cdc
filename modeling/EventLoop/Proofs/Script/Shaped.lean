import EventLoop.Proofs.Script.Pick

/-!
# Shapes of phrases

The types of programs allow more than is ever read: a template with too few pieces, a loop that
starts with a whole block, a spread that stands alone.  `Phrase.WellShaped` says what shape a
phrase has.  It has two sides: what a phrase is made of directly has its shape
(`Phrase.HasShape`), and what spreads or collects several values stands where there may be
several; `Phrase.inner` lists the children that stand anywhere else.

Some shapes depend on the rule that gave a part: only a block is a body of a function, although
any statement is a statement.  `Part.Settled` says what is known of a part by its rule, and
`Part.Shaped` that all phrases of a part are well-shaped, too.
-/

namespace EventLoop.Script

/-! ## Shapes -/

/-- Whether a statement is a block. -/
def Stmt.isBlock : Stmt → Bool
  | .block _ _ => true
  | _ => false

/-- Whether a statement may start a counting loop. -/
def Stmt.isInit : Stmt → Bool
  | .declare _ _ _ | .exprStmt _ _ => true
  | _ => false

namespace Expr

/-- Whether an expression is a name, or a member of one that is there in any case. -/
def isConstructorName : Expr → Bool
  | .ident _ _ => true
  | .member owner _ _ isOptional _ => !isOptional && isConstructorName owner
  | _ => false

/-- The direct shape of an expression. -/
def HasShape : Expr → Prop
  | .template pieces exprs _ => pieces.length = exprs.length + 1
  | .sequence exprs _ => 2 ≤ exprs.length
  | .construct callee _ _ => callee.isConstructorName = true
  | .function _ _ _ _ (.block body) _ => body.isBlock = true
  | _ => True

end Expr

/-- The direct shape of a statement. -/
def Stmt.HasShape : Stmt → Prop
  | .declare _ declarators _ => declarators ≠ []
  | .functionDecl _ _ _ body _ => body.isBlock = true
  | .tryStmt body _ catchBody finallyBody _ =>
    body.isBlock = true ∧ (∀ handler ∈ catchBody, handler.isBlock = true) ∧
      ∀ last ∈ finallyBody, last.isBlock = true
  | .forStmt init _ _ _ _ => ∀ first ∈ init, first.isInit = true
  | _ => True

/-- The function of a method: it is no arrow, has the name of the method and a block. -/
def IsMethod (name : String) (function : Expr) : Prop :=
  ∃ params isAsync body span,
    function = .function (some name) params isAsync false (.block body) span ∧ body.isBlock = true

namespace Phrase

/-- The direct shape of a phrase. -/
def HasShape : Phrase → Prop
  | .stmt value => value.HasShape
  | .expr value | .method value => value.HasShape
  | .member (.method name _ function) => IsMethod name function
  | _ => True

/-- Whether a phrase spreads or collects several values. -/
def isUnpacking : Phrase → Bool
  | .expr (.spread _ _) | .pattern (.rest _ _) => true
  | _ => false

/-- The children of an expression but for arguments, elements, values of properties and
parameters. -/
def innerOfExpr : Expr → List Phrase
  | .call callee _ _ | .construct callee _ _ => [.expr callee]
  | .list _ _ | .object _ _ => []
  | .function _ _ _ _ body _ => [ofBody body]
  | value => childrenOfExpr value

/-- The children of a pattern but for elements and for what has no key. -/
def innerOfPattern : Pattern → List Phrase
  | .array _ _ => []
  | .object properties _ =>
    (properties.filter fun property => property.1 ≠ "...").map fun property => .pattern property.2
  | value => childrenOfPattern value

/-- The children of a statement but for parameters. -/
def innerOfStmt : Stmt → List Phrase
  | .functionDecl _ _ _ body _ => [.stmt body]
  | value => childrenOfStmt value

/-- The children of a phrase that stand where a single value stands. -/
def inner : Phrase → List Phrase
  | .stmt value => innerOfStmt value
  | .expr value | .method value => innerOfExpr value
  | .pattern value => innerOfPattern value
  | phrase => phrase.children

/-- A phrase has its shape, and what spreads or collects several values does not stand for a
single one. -/
structure WellShaped (phrase : Phrase) : Prop where
  shape : phrase.HasShape
  plain : ∀ child ∈ phrase.inner, child.isUnpacking = false

theorem inner_subset (phrase : Phrase) : phrase.inner ⊆ phrase.children := by
  cases phrase with
  | stmt value =>
      cases value with
      | functionDecl name params isAsync body span => exact List.subset_append_right _ _
      | _ => exact List.Subset.refl _
  | expr value | method value =>
      cases value with
      | call callee args span | construct callee args span =>
          exact List.cons_subset_cons _ (List.nil_subset _)
      | list | object => exact List.nil_subset _
      | function name params isAsync isArrow body span => exact List.subset_append_right _ _
      | _ => exact List.Subset.refl _
  | pattern value =>
      cases value with
      | array => exact List.nil_subset _
      | object properties span => exact List.map_subset _ List.filter_sublist.subset
      | _ => exact List.Subset.refl _
  | _ => exact List.Subset.refl _

/-- A phrase that is well-shaped everywhere and may stand for a single value. -/
structure Solid (phrase : Phrase) : Prop where
  everywhere : phrase.Everywhere WellShaped
  plain : phrase.isUnpacking = false

/-- A phrase of which all children may stand for single values. -/
theorem everywhere_of_solid {phrase : Phrase} (hshape : phrase.HasShape)
    (h : ∀ child ∈ phrase.children, child.Solid) : phrase.Everywhere WellShaped :=
  .intro ⟨hshape, fun child hchild => (h child (phrase.inner_subset hchild)).plain⟩
    fun child hchild => (h child hchild).everywhere

theorem isUnpacking_pattern (value : Pattern) : (pattern value).isUnpacking = value.isRest := by
  cases value <;> rfl

theorem isUnpacking_of_isTarget {target : Pattern} (h : target.isTarget = true) :
    (pattern target).isUnpacking = false := by
  cases target with
  | rest => contradiction
  | _ => rfl

/-- A function is as well-shaped as a method. -/
theorem everywhere_method_iff {e : Expr} :
    (Phrase.method e).Everywhere WellShaped ↔ (Phrase.expr e).Everywhere WellShaped :=
  ⟨fun h => .intro ⟨h.here.shape, h.here.plain⟩ h.inside,
    fun h => .intro ⟨h.here.shape, h.here.plain⟩ h.inside⟩

theorem Everywhere.ofProperty {e : Expr} (h : (Phrase.expr e).Everywhere WellShaped)
    (keySpan : Span) : (Phrase.ofProperty keySpan e).Everywhere WellShaped := by
  unfold Phrase.ofProperty
  split
  · dsimp only
    split
    · exact everywhere_method_iff.2 h
    · exact h
  · exact h

end Phrase

/-! ## Parts -/

/-- What is known of a part by its rule or its meaning, besides the phrases of it. -/
def Part.Settled (part : Part) : Prop :=
  match part.meaning with
  | .stmt value => part.rule = .block ∨ part.rule = .finallyClause → value.isBlock = true
  | .expr value =>
    (part.rule ≠ .spreadElement → (Phrase.expr value).isUnpacking = false) ∧
      (part.rule = .newCallee → value.isConstructorName = true)
  | .declaration _ declarators => declarators ≠ []
  | .init value => ∀ first ∈ value, first.isInit = true
  | .clause value => ∀ e ∈ value, (Phrase.expr e).isUnpacking = false
  | .handler _ body => body.isBlock = true
  | .method name _ function => IsMethod name function
  | .body (.block body) => body.isBlock = true
  | .body (.expr value) => (Phrase.expr value).isUnpacking = false
  | .args _ => part.rule ≠ .regularAccess
  | .access isOptional _ _ => part.rule = .regularAccess → isOptional = false
  | .index value => part.rule ≠ .regularAccess ∧ (Phrase.expr value).isUnpacking = false
  | _ => True

/-- A part of which all phrases are well-shaped. -/
structure Part.Shaped (part : Part) : Prop where
  phrases : ∀ phrase ∈ part.meaning.phrases, phrase.Everywhere Phrase.WellShaped
  settled : part.Settled

/-! ## Picking from parts -/

section Picking

variable {parts : List Part}

theorem exists_of_mem_stmtsOf {value : Stmt} (h : value ∈ stmtsOf parts) :
    ∃ part ∈ parts, part.meaning = .stmt value := by
  obtain ⟨part, hpart, hmeaning⟩ := List.mem_filterMap.1 h
  split at hmeaning
  · rename_i heq
    exact ⟨part, hpart, heq.trans (congrArg _ (Option.some.inj hmeaning))⟩
  · contradiction

theorem exists_of_mem_exprsOf {value : Expr} (h : value ∈ exprsOf parts) :
    ∃ part ∈ parts, part.meaning = .expr value := by
  obtain ⟨part, hpart, hmeaning⟩ := List.mem_filterMap.1 h
  split at hmeaning
  · rename_i heq
    exact ⟨part, hpart, heq.trans (congrArg _ (Option.some.inj hmeaning))⟩
  · contradiction

/-- A value that is read off the meaning of a part is well-shaped if it is a phrase of it. -/
theorem everywhere_of_mem {α : Type} {f : Part → Option α} (phrase : α → Phrase)
    (hparts : ∀ part ∈ parts, part.Shaped)
    (hf : ∀ part a, f part = some a → phrase a ∈ part.meaning.phrases) {a : α}
    (ha : a ∈ parts.filterMap f) : (phrase a).Everywhere Phrase.WellShaped := by
  obtain ⟨part, hpart, hvalue⟩ := List.mem_filterMap.1 ha
  exact (hparts part hpart).phrases _ (hf part a hvalue)

variable (hparts : ∀ part ∈ parts, part.Shaped)

include hparts

theorem solid_stmt {value : Stmt} (h : value ∈ stmtsOf parts) : (Phrase.stmt value).Solid := by
  obtain ⟨part, hpart, hmeaning⟩ := exists_of_mem_stmtsOf h
  have hphrases := (hparts part hpart).phrases
  rw [hmeaning] at hphrases
  exact ⟨hphrases _ List.mem_cons_self, rfl⟩

theorem everywhere_expr {value : Expr} (h : value ∈ exprsOf parts) :
    (Phrase.expr value).Everywhere Phrase.WellShaped := by
  obtain ⟨part, hpart, hmeaning⟩ := exists_of_mem_exprsOf h
  have hphrases := (hparts part hpart).phrases
  rw [hmeaning] at hphrases
  exact hphrases _ List.mem_cons_self

theorem everywhere_pattern {value : Pattern} (h : value ∈ patternsOf parts) :
    (Phrase.pattern value).Everywhere Phrase.WellShaped := by
  refine everywhere_of_mem .pattern hparts (fun part a ha => ?_) h
  split at ha
  · rename_i heq
    rw [heq, Option.some.inj ha]
    exact List.mem_cons_self
  · contradiction

theorem everywhere_param {value : Pattern} (h : value ∈ paramsOf parts) :
    (Phrase.pattern value).Everywhere Phrase.WellShaped := by
  obtain ⟨part, hpart, hvalue⟩ := List.mem_flatMap.1 h
  split at hvalue
  · rename_i values heq
    refine (hparts part hpart).phrases _ ?_
    rw [heq]
    exact List.mem_map_of_mem hvalue
  · contradiction

theorem everywhere_arg {value : Expr} (h : value ∈ argsOf parts) :
    (Phrase.expr value).Everywhere Phrase.WellShaped := by
  obtain ⟨part, hpart, hvalue⟩ := List.mem_flatMap.1 h
  split at hvalue
  · rename_i values heq
    refine (hparts part hpart).phrases _ ?_
    rw [heq]
    exact List.mem_map_of_mem hvalue
  · rename_i values heq
    refine (hparts part hpart).phrases _ ?_
    rw [heq]
    exact List.mem_map_of_mem hvalue
  · contradiction

theorem everywhere_cases :
    ∀ value ∈ parts.filterMap fun part => match part.meaning with
      | .switchCase value => some value
      | _ => none, (Phrase.switchCase value).Everywhere Phrase.WellShaped := by
  refine fun value => everywhere_of_mem .switchCase hparts fun part a ha => ?_
  split at ha
  · rename_i heq
    rw [heq, Option.some.inj ha]
    exact List.mem_cons_self
  · contradiction

theorem everywhere_members :
    ∀ value ∈ parts.filterMap fun part => match part.meaning with
      | .member value => value
      | _ => none, (Phrase.member value).Everywhere Phrase.WellShaped := by
  refine fun value => everywhere_of_mem .member hparts fun part a ha => ?_
  split at ha
  · rename_i heq
    rw [heq, ha]
    exact List.mem_cons_self
  · contradiction

/-- How a counting loop starts. -/
theorem solid_init :
    ∀ value ∈ parts.findSome? fun part => match part.meaning with
      | .init value => value
      | _ => none, (Phrase.stmt value).Solid ∧ value.isInit = true := by
  intro value hvalue
  obtain ⟨part, hpart, hmeaning⟩ := List.exists_of_findSome?_eq_some hvalue
  obtain ⟨hphrases, hsettled⟩ := hparts part hpart
  split at hmeaning
  · rename_i heq
    rw [heq, hmeaning] at hphrases
    rw [Part.Settled, heq] at hsettled
    exact ⟨⟨hphrases _ List.mem_cons_self, rfl⟩, hsettled value hmeaning⟩
  · contradiction

/-- The clause of a counting loop. -/
theorem solid_clause (r : Rule) :
    ∀ value ∈ (partOf? parts r).bind fun part => match part.meaning with
      | .clause value => value
      | _ => none, (Phrase.expr value).Solid := by
  intro value hvalue
  obtain ⟨part, hpart, hmeaning⟩ := Option.bind_eq_some_iff.1 hvalue
  obtain ⟨hphrases, hsettled⟩ := hparts part (Standing.mem_of_partOf? hpart).1
  split at hmeaning
  · rename_i heq
    rw [heq, hmeaning] at hphrases
    rw [Part.Settled, heq] at hsettled
    exact ⟨hphrases _ List.mem_cons_self, hsettled value hmeaning⟩
  · contradiction

/-- The body of a handler. -/
theorem solid_handler :
    ∀ value ∈ (parts.findSome? fun part => match part.meaning with
      | .handler name body => some (name, body)
      | _ => none).map Prod.snd, (Phrase.stmt value).Solid ∧ value.isBlock = true := by
  intro value hvalue
  obtain ⟨handler, hhandler, rfl⟩ := Option.map_eq_some_iff.1 hvalue
  obtain ⟨part, hpart, hmeaning⟩ := List.exists_of_findSome?_eq_some hhandler
  obtain ⟨hphrases, hsettled⟩ := hparts part hpart
  split at hmeaning
  · rename_i heq
    obtain rfl := Option.some.inj hmeaning
    rw [heq] at hphrases
    rw [Part.Settled, heq] at hsettled
    exact ⟨⟨hphrases _ List.mem_cons_self, rfl⟩, hsettled⟩
  · contradiction

/-- The statement that is the part of a rule for blocks. -/
theorem isBlock_stmtOf? {r : Rule} (hr : r = .block ∨ r = .finallyClause) {value : Stmt}
    (hvalue : Script.stmtOf? parts r = some value) :
    (Phrase.stmt value).Solid ∧ value.isBlock = true := by
  have hmem := List.mem_of_mem_head? hvalue
  have hchosen : ∀ part ∈ parts.filter (·.rule = r), part.Shaped := fun part hpart =>
    hparts part (List.mem_filter.1 hpart).1
  refine ⟨solid_stmt hchosen hmem, ?_⟩
  obtain ⟨part, hpart, hmeaning⟩ := exists_of_mem_stmtsOf hmem
  have hsettled := (hchosen part hpart).settled
  rw [Part.Settled, hmeaning] at hsettled
  refine hsettled ?_
  rw [of_decide_eq_true (List.mem_filter.1 hpart).2]
  exact hr

theorem everywhere_declarators :
    ∀ value ∈ parts.filterMap fun part => match part.meaning with
      | .declarator value => some value
      | _ => none, (Phrase.declarator value).Everywhere Phrase.WellShaped := by
  refine fun value => everywhere_of_mem .declarator hparts fun part a ha => ?_
  split at ha
  · rename_i heq
    rw [heq, Option.some.inj ha]
    exact List.mem_cons_self
  · contradiction

theorem everywhere_slots :
    ∀ value ∈ parts.filterMap fun part => match part.meaning with
      | .slot value => some value
      | _ => none, ∀ element ∈ value, (Phrase.pattern element).Everywhere Phrase.WellShaped := by
  intro value hvalue element helement
  obtain ⟨part, hpart, hmeaning⟩ := List.mem_filterMap.1 hvalue
  split at hmeaning
  · rename_i heq
    refine (hparts part hpart).phrases _ ?_
    rw [heq, Option.some.inj hmeaning, helement]
    exact List.mem_cons_self
  · contradiction

theorem everywhere_targets :
    ∀ value ∈ parts.filterMap fun part => match part.meaning with
      | .patternProperty key target => some (key, target)
      | _ => none, (Phrase.pattern value.2).Everywhere Phrase.WellShaped := by
  refine fun value => everywhere_of_mem (fun value : String × Pattern => .pattern value.2) hparts
    fun part a ha => ?_
  split at ha
  · rename_i heq
    rw [heq, ← Option.some.inj ha]
    exact List.mem_cons_self
  · contradiction

theorem everywhere_properties :
    ∀ value ∈ parts.filterMap fun part => match part.meaning with
      | .property key keySpan value => some (key, keySpan, value)
      | _ => none, (Phrase.ofProperty value.2.1 value.2.2).Everywhere Phrase.WellShaped := by
  refine fun value => everywhere_of_mem
    (fun value : String × Span × Expr => .ofProperty value.2.1 value.2.2) hparts
    fun part a ha => ?_
  split at ha
  · rename_i heq
    rw [heq, ← Option.some.inj ha]
    exact List.mem_cons_self
  · contradiction

/-- The body of an arrow. -/
theorem solid_body {body : FunctionBody}
    (hbody : (parts.findSome? fun part => match part.meaning with
      | .body value => some value
      | _ => none) = some body) :
    (Phrase.ofBody body).Solid ∧ ∀ block, body = .block block → block.isBlock = true := by
  obtain ⟨part, hpart, hmeaning⟩ := List.exists_of_findSome?_eq_some hbody
  obtain ⟨hphrases, hsettled⟩ := hparts part hpart
  split at hmeaning
  · rename_i heq
    rw [Option.some.inj hmeaning] at heq
    rw [heq] at hphrases
    rw [Part.Settled, heq] at hsettled
    have heverywhere := hphrases _ List.mem_cons_self
    cases body with
    | block block =>
        refine ⟨⟨heverywhere, rfl⟩, fun other hother => ?_⟩
        obtain rfl := FunctionBody.block.inj hother
        exact hsettled
    | expr value => exact ⟨⟨heverywhere, hsettled⟩, fun other hother => nomatch hother⟩
  · contradiction

/-- A function with parameters from parts. -/
theorem everywhere_function {body : FunctionBody} (hsolid : (Phrase.ofBody body).Solid)
    (hblock : ∀ block, body = .block block → block.isBlock = true) (name : Option String)
    (isArrow : Bool) (span : Span) :
    (Phrase.expr (functionOf name isArrow body span parts)).Everywhere Phrase.WellShaped := by
  refine .intro ⟨?_, List.forall_mem_singleton.2 hsolid.plain⟩ (List.forall_mem_append.2
    ⟨List.forall_mem_map.2 fun _ => everywhere_param hparts,
      List.forall_mem_singleton.2 hsolid.everywhere⟩)
  cases body with
  | block block => exact hblock block rfl
  | expr value => trivial

/-- The phrases of the meaning of a part. -/
theorem everywhere_meaning (meaning : Meaning) (h : meaning ∈ parts.map Part.meaning) :
    ∀ phrase ∈ meaning.phrases, phrase.Everywhere Phrase.WellShaped := by
  obtain ⟨part, hpart, rfl⟩ := List.mem_map.1 h
  exact (hparts part hpart).phrases

end Picking

/-- Children that are there or not. -/
theorem solid_toList {α : Type} {phrase : α → Phrase} {value : Option α}
    (h : ∀ a ∈ value, (phrase a).Solid) : ∀ child ∈ value.toList.map phrase, child.Solid :=
  List.forall_mem_map.2 fun a ha => h a (Option.mem_toList.1 ha)

end EventLoop.Script
