import EventLoop.Proofs.Script.Part

/-!
# Picking values from parts

One lemma for each way in which the meaning of a tree picks values from its
parts: what is picked has its phrases in the order in which the parts stand.
-/

namespace EventLoop.Script

open Peg

theorem elementsOf_sublist (slots : List (Option Pattern)) : (elementsOf slots).Sublist slots := by
  unfold elementsOf
  split
  · exact List.dropLast_sublist slots
  · exact .refl slots

/-- Among the parts that `rule` puts together, those of a category are of `rules` only. -/
def TakesOnly (rule : Rule) (category : Category) (rules : List Rule) : Prop :=
  (∀ r ∈ (body rule).mentions, categoryOf r = category → r ∈ rules) ∧
    kind rule ≠ .token ∧ kind rule ≠ .hidden

instance (rule : Rule) (category : Category) (rules : List Rule) :
    Decidable (TakesOnly rule category rules) := inferInstanceAs (Decidable (_ ∧ _))

namespace Standing

variable {text : List Char} {rule : Rule} {whole : Part} {parts : List Part}

theorem singleton_sublist {α : Type} {values : List α} {value : α}
    (h : values.head? = some value) : [value].Sublist values := by
  obtain ⟨rest, rfl⟩ := List.head?_eq_some_iff.1 h
  exact (List.nil_sublist rest).cons_cons value

/-! ## Values of one kind -/

theorem stmts (h : Standing text rule whole parts) {values : List Stmt}
    (hvalues : values.Sublist (stmtsOf parts)) :
    Picked text parts (ofKind .stmt) (values.map .stmt) := by
  rw [List.map_eq_flatMap]
  refine h.pickMeanings .stmt (fun _ => rfl) (fun part value hvalue => ?_) hvalues
  split at hvalue
  · rename_i heq
    rw [heq, Option.some.inj hvalue]
  · contradiction

theorem stmt (h : Standing text rule whole parts) {value : Stmt}
    (hvalue : (stmtsOf parts).head? = some value) :
    Picked text parts (ofKind .stmt) [.stmt value] :=
  h.stmts (singleton_sublist hvalue)

/-- The branches of a choice. -/
theorem branches (h : Standing text rule whole parts) {thenBody : Stmt}
    (hthen : (stmtsOf parts).head? = some thenBody) :
    Picked text parts (ofKind .stmt)
      (.stmt thenBody :: (stmtsOf parts)[1]?.toList.map .stmt) := by
  obtain ⟨rest, hstmts⟩ := List.head?_eq_some_iff.1 hthen
  have hall := h.stmts (.refl (stmtsOf parts))
  cases rest with
  | nil =>
      rw [hstmts] at hall ⊢
      exact hall
  | cons elseBody rest =>
      have hvalues : [thenBody, elseBody].Sublist (stmtsOf parts) := by
        rw [hstmts]
        exact ((List.nil_sublist rest).cons_cons elseBody).cons_cons thenBody
      have hpicked := h.stmts hvalues
      rw [hstmts]
      exact hpicked

theorem exprs (h : Standing text rule whole parts) {values : List Expr}
    (hvalues : values.Sublist (exprsOf parts)) :
    Picked text parts (ofKind .expr) (values.map .expr) := by
  rw [List.map_eq_flatMap]
  refine h.pickMeanings .expr (fun _ => rfl) (fun part value hvalue => ?_) hvalues
  split at hvalue
  · rename_i heq
    rw [heq, Option.some.inj hvalue]
  · contradiction

theorem expr (h : Standing text rule whole parts) {value : Expr}
    (hvalue : (exprsOf parts).head? = some value) :
    Picked text parts (ofKind .expr) [.expr value] :=
  h.exprs (singleton_sublist hvalue)

theorem expr? (h : Standing text rule whole parts) :
    Picked text parts (ofKind .expr) ((exprsOf parts).head?.toList.map .expr) := by
  cases hvalue : (exprsOf parts).head? with
  | none => exact .none text parts _
  | some value => exact h.expr hvalue

/-- The sides of an assignment. -/
theorem twoExprs (h : Standing text rule whole parts) {target value : Expr}
    (htarget : (exprsOf parts).head? = some target) (hvalue : (exprsOf parts)[1]? = some value) :
    Picked text parts (ofKind .expr) [.expr target, .expr value] := by
  have hvalues : [target, value].Sublist (exprsOf parts) := by
    obtain ⟨rest, hexprs⟩ := List.head?_eq_some_iff.1 htarget
    rw [hexprs] at hvalue ⊢
    cases rest with
    | nil => contradiction
    | cons other rest =>
        obtain rfl := Option.some.inj hvalue
        exact ((List.nil_sublist rest).cons_cons other).cons_cons target
  exact h.exprs hvalues

theorem patterns (h : Standing text rule whole parts) {values : List Pattern}
    (hvalues : values.Sublist (patternsOf parts)) :
    Picked text parts (ofKind .pattern) (values.map .pattern) := by
  rw [List.map_eq_flatMap]
  refine h.pickMeanings .pattern (fun _ => rfl) (fun part value hvalue => ?_) hvalues
  split at hvalue
  · rename_i heq
    rw [heq, Option.some.inj hvalue]
  · contradiction

theorem pattern (h : Standing text rule whole parts) {value : Pattern}
    (hvalue : (patternsOf parts).head? = some value) :
    Picked text parts (ofKind .pattern) [.pattern value] :=
  h.patterns (singleton_sublist hvalue)

theorem cases (h : Standing text rule whole parts) :
    Picked text parts (ofKind .switchCase) ((parts.filterMap fun part =>
      match part.meaning with
      | .switchCase value => some value
      | _ => none).map .switchCase) := by
  rw [List.map_eq_flatMap]
  refine h.pickMeanings .switchCase (fun _ => rfl) (fun part value hvalue => ?_) (.refl _)
  split at hvalue
  · rename_i heq
    rw [heq, Option.some.inj hvalue]
  · contradiction

theorem members (h : Standing text rule whole parts) :
    Picked text parts (ofKind .member) ((parts.filterMap fun part =>
      match part.meaning with
      | .member value => value
      | _ => none).map .member) := by
  rw [List.map_eq_flatMap]
  refine h.pickMeanings (fun value => .member (some value)) (fun _ => rfl)
    (fun part value hvalue => ?_) (.refl _)
  split at hvalue
  · rename_i heq
    rw [heq, hvalue]
  · contradiction

theorem declarators (h : Standing text rule whole parts) :
    Picked text parts (ofKind .declarator) ((parts.filterMap fun part =>
      match part.meaning with
      | .declarator value => some value
      | _ => none).map .declarator) := by
  rw [List.map_eq_flatMap]
  refine h.pickMeanings .declarator (fun _ => rfl) (fun part value hvalue => ?_) (.refl _)
  split at hvalue
  · rename_i heq
    rw [heq, Option.some.inj hvalue]
  · contradiction

theorem properties (h : Standing text rule whole parts) :
    Picked text parts (ofKind .property) ((parts.filterMap fun part =>
      match part.meaning with
      | .property key keySpan value => some (key, keySpan, value)
      | _ => none).map fun property => .ofProperty property.2.1 property.2.2) := by
  rw [List.map_eq_flatMap]
  refine h.pickMeanings
    (fun value : String × Span × Expr => .property value.1 value.2.1 value.2.2)
    (fun _ => rfl) (fun part value hvalue => ?_) (.refl _)
  split at hvalue
  · rename_i heq
    rw [heq, ← Option.some.inj hvalue]
  · contradiction

theorem slots (h : Standing text rule whole parts) :
    Picked text parts (ofKind .slot) ((elementsOf (parts.filterMap fun part =>
      match part.meaning with
      | .slot value => some value
      | _ => none)).flatMap fun element => element.toList.map .pattern) := by
  refine h.pickMeanings .slot (fun _ => rfl) (fun part value hvalue => ?_) (elementsOf_sublist _)
  split at hvalue
  · rename_i heq
    rw [heq, Option.some.inj hvalue]
  · contradiction

theorem targets (h : Standing text rule whole parts) :
    Picked text parts (ofKind .patternProperty) ((parts.filterMap fun part =>
      match part.meaning with
      | .patternProperty key target => some (key, target)
      | _ => none).map fun property => .pattern property.2) := by
  rw [List.map_eq_flatMap]
  refine h.pickMeanings (fun value : String × Pattern => .patternProperty value.1 value.2)
    (fun _ => rfl) (fun part value hvalue => ?_) (.refl _)
  split at hvalue
  · rename_i heq
    rw [heq, ← Option.some.inj hvalue]
  · contradiction

/-! ## Values of single parts -/

theorem single {part : Part} (hpart : part ∈ parts)
    {kind : Rule → Bool} (hkind : kind part.rule = true) {phrases : List Phrase}
    (hphrases : Placed text part.start.offset part.stop.offset phrases) :
    Picked text parts kind phrases := by
  refine ⟨[part], ?_, ?_⟩
  · rw [List.singleton_sublist, List.mem_filter]
    exact ⟨hpart, hkind⟩
  · rw [← List.append_nil phrases]
    exact .cons hphrases .nil

/-- The whole meaning of a part. -/
theorem part (h : Standing text rule whole parts) {part : Part} (hpart : part ∈ parts) :
    Picked text parts (ofKind part.meaning.category) part.meaning.phrases := by
  have hfits := h.fits part hpart
  refine single hpart ?_ hfits.placed
  rw [ofKind, hfits.category_eq, decide_eq_true rfl]

theorem mem_of_partOf? {parts : List Part} {r : Rule} {part : Part}
    (h : partOf? parts r = some part) : part ∈ parts ∧ part.rule = r := by
  have hrule := List.find?_some h
  exact ⟨List.mem_of_find?_eq_some h, of_decide_eq_true hrule⟩

/-- The text of the part of a rule that stands for a name. -/
theorem accepted (h : Standing text rule whole parts) {r : Rule} {name : String}
    (hname : textOf? parts r = some name) (hr : isNameRule r = true := by rfl) :
    IsAccepted name := by
  obtain ⟨part, hpart, rfl⟩ := Option.map_eq_some_iff.1 hname
  obtain ⟨hmem, hrule⟩ := mem_of_partOf? hpart
  exact (h.fits part hmem).stands.name (by rw [hrule, hr])

/-- The text of a key. -/
theorem isName (h : Standing text rule whole parts) {part : Part}
    (hpart : partOf? parts .identifierName = some part) : IsName part.string.toList := by
  obtain ⟨hmem, hrule⟩ := mem_of_partOf? hpart
  rw [Part.string, String.toList_ofList]
  exact (h.fits part hmem).stands.key hrule

/-- A part for a name that is taken as a phrase of its own. -/
theorem named (h : Standing text rule whole parts) {r : Rule} {part : Part}
    (hpart : partOf? parts r = some part) {phrase : Phrase}
    (hchildren : phrase.children = [] := by rfl)
    (hnames : phrase.names = [part.string] := by rfl) (hspan : phrase.span = part.span := by rfl)
    (hr : isNameRule r = true := by rfl)
    (hread : IsToken text part.string.toList part.span → phrase.IsRead text := by exact id) :
    Picked text parts (only r) [phrase] := by
  obtain ⟨hmem, hrule⟩ := mem_of_partOf? hpart
  have hstands := (h.fits part hmem).stands
  refine single hmem (by rw [only, hrule, decide_eq_true rfl]) ?_
  exact hstands.named (by rw [hrule, hr]) hchildren hnames hspan hread

/-- The statement that is the part of a rule. -/
theorem stmtOf (h : Standing text rule whole parts) {r : Rule} {value : Stmt}
    (hvalue : stmtOf? parts r = some value) : Picked text parts (only r) [.stmt value] := by
  have hmem := List.mem_of_mem_head? hvalue
  obtain ⟨part, hpart, hmeaning⟩ := List.mem_filterMap.1 hmem
  obtain ⟨hpart, hrule⟩ := List.mem_filter.1 hpart
  have hfits := h.fits part hpart
  split at hmeaning
  · rename_i heq
    refine single hpart (by simpa [only] using hrule) ?_
    rw [← Option.some.inj hmeaning]
    have hplaced := hfits.placed
    rwa [heq] at hplaced
  · contradiction

theorem stmtOf? (h : Standing text rule whole parts) (r : Rule) :
    Picked text parts (only r) ((Script.stmtOf? parts r).toList.map .stmt) := by
  cases hvalue : Script.stmtOf? parts r with
  | none => exact .none text parts _
  | some value => exact h.stmtOf hvalue

/-- The clause of a counting loop. -/
theorem clause (h : Standing text rule whole parts) (r : Rule) :
    Picked text parts (only r) (((partOf? parts r).bind fun part =>
      match part.meaning with
      | .clause value => value
      | _ => none).toList.map .expr) := by
  cases hpart : partOf? parts r with
  | none => exact .none text parts _
  | some part =>
      obtain ⟨hmem, hrule⟩ := mem_of_partOf? hpart
      refine single hmem (decide_eq_true hrule) ?_
      have hplaced := (h.fits part hmem).placed
      dsimp only [Option.bind_some]
      split
      · rename_i heq
        rwa [heq] at hplaced
      · exact .nil text _ _

/-- The rule of a part is mentioned in the body of the whole. -/
theorem mem_mentions (h : Standing text rule whole parts) {part : Part} (hpart : part ∈ parts)
    (hrecorded : kind rule ≠ .token ∧ kind rule ≠ .hidden) :
    part.rule ∈ (Script.body rule).mentions :=
  (h.labels hrecorded.1).mem_mentions (kind_mentions_ne rule hrecorded.1 hrecorded.2) part.rule
    (List.mem_map_of_mem hpart)

/-- The parts of a category are of the rules that the body takes it from. -/
theorem rule_mem (h : Standing text rule whole parts) {category : Category} {rules : List Rule}
    (honly : TakesOnly rule category rules) {part : Part} (hpart : part ∈ parts)
    (hcategory : part.meaning.category = category) : part.rule ∈ rules :=
  honly.1 _ (h.mem_mentions hpart honly.2) ((h.fits part hpart).category_eq.symm.trans hcategory)

/-- A pattern among parts is one that one of the rules for patterns there gives. -/
theorem givesPattern (h : Standing text rule whole parts) {rules : List Rule}
    (honly : TakesOnly rule .pattern rules) {value : Pattern}
    (hvalue : .pattern value ∈ parts.map Part.meaning) :
    ∃ r ∈ rules, Script.givesPattern r value = true := by
  obtain ⟨part, hpart, hmeaning⟩ := List.mem_map.1 hvalue
  have hproper := (h.fits part hpart).proper
  rw [Part.Proper, hmeaning] at hproper
  exact ⟨_, h.rule_mem honly hpart (by rw [hmeaning]; rfl), hproper⟩

/-- The first pattern among parts is a target if only rules for targets give patterns there. -/
theorem isTarget (h : Standing text rule whole parts)
    (honly : TakesOnly rule .pattern [.bindingTarget, .arrayPattern, .objectPattern])
    {value : Pattern} (hvalue : (patternsOf parts).head? = some value) :
    value.isTarget = true := by
  obtain ⟨part, hpart, hmeaning⟩ := List.mem_filterMap.1 (List.mem_of_mem_head? hvalue)
  split at hmeaning
  · rename_i heq
    obtain rfl := Option.some.inj hmeaning
    obtain ⟨r, hr, hgives⟩ := h.givesPattern honly (List.mem_map.2 ⟨part, hpart, heq⟩)
    simp only [List.mem_cons, List.not_mem_nil, or_false] at hr
    rcases hr with rfl | rfl | rfl <;> exact hgives
  · contradiction

/-- The keys of the properties of a pattern that take up what is left. -/
theorem keys_of_rest (h : Standing text rule whole parts) :
    ∀ property ∈ parts.filterMap fun part => match part.meaning with
      | .patternProperty key target => some (key, target)
      | _ => none,
    property.2.isRest = true → property.1 = "..." := by
  intro property hproperty
  obtain ⟨part, hpart, hmeaning⟩ := List.mem_filterMap.1 hproperty
  have hproper := (h.fits part hpart).proper
  split at hmeaning
  · rename_i heq
    obtain rfl := Option.some.inj hmeaning
    rwa [Part.Proper, heq] at hproper
  · contradiction

/-- What is found in the first part that has it. -/
theorem found (h : Standing text rule whole parts) {α : Type} {f : Part → Option α}
    (meaning : α → Meaning) {category : Category}
    (hcategory : ∀ a, (meaning a).category = category)
    (hf : ∀ part a, f part = some a → part.meaning = meaning a) {value : α}
    (hvalue : parts.findSome? f = some value) :
    Picked text parts (ofKind category) (meaning value).phrases := by
  rw [← List.head?_filterMap] at hvalue
  have hpicked := h.pickMeanings meaning hcategory hf (singleton_sublist hvalue)
  rwa [List.flatMap_singleton] at hpicked

theorem init (h : Standing text rule whole parts) :
    Picked text parts (ofKind .init) ((parts.findSome? fun part =>
      match part.meaning with
      | .init value => value
      | _ => none).toList.map .stmt) := by
  cases hvalue : parts.findSome? fun part =>
      match part.meaning with
      | .init value => value
      | _ => none with
  | none => exact .none text parts _
  | some value =>
      refine h.found (fun value => .init (some value)) (fun _ => rfl) (fun part value hvalue => ?_)
        hvalue
      split at hvalue
      · rename_i heq
        rw [heq, hvalue]
      · contradiction

theorem handler (h : Standing text rule whole parts) :
    Picked text parts (ofKind .handler) (((parts.findSome? fun part =>
      match part.meaning with
      | .handler name body => some (name, body)
      | _ => none).map Prod.snd).toList.map .stmt) := by
  cases hvalue : parts.findSome? fun part =>
      match part.meaning with
      | .handler name body => some (name, body)
      | _ => none with
  | none => exact .none text parts _
  | some value =>
      refine h.found (fun value => .handler value.1 value.2) (fun _ => rfl)
        (fun part value hvalue => ?_) hvalue
      split at hvalue
      · rename_i heq
        rw [heq, ← Option.some.inj hvalue]
      · contradiction

/-- The name that a handler gives to what it handles. -/
theorem accepted_handler (h : Standing text rule whole parts) :
    ∀ name ∈ ((parts.findSome? fun part => match part.meaning with
      | .handler name body => some (name, body)
      | _ => none).bind Prod.fst).toList, IsAccepted name := by
  intro name hname
  obtain ⟨value, hvalue, hfst⟩ := Option.bind_eq_some_iff.1 (Option.mem_toList.1 hname)
  obtain ⟨part, hpart, hmeaning⟩ := List.exists_of_findSome?_eq_some hvalue
  have hproper := (h.fits part hpart).proper
  split at hmeaning
  · rename_i heq
    obtain rfl := Option.some.inj hmeaning
    rw [Part.Proper, heq] at hproper
    exact hproper name (Option.mem_toList.2 hfst)
  · contradiction

theorem body? (h : Standing text rule whole parts) {body : FunctionBody}
    (hbody : (parts.findSome? fun part => match part.meaning with
      | .body value => some value
      | _ => none) = some body) : Picked text parts (ofKind .body) [.ofBody body] := by
  refine h.found .body (fun _ => rfl) (fun part value hvalue => ?_) hbody
  split at hvalue
  · rename_i heq
    rw [heq, Option.some.inj hvalue]
  · contradiction

/-! ## Parameters and arguments -/

/-- What all parts of a kind contribute. -/
theorem pickAll {first : Rule → Bool} {g : Part → List Phrase}
    (hg : ∀ part ∈ parts, g part = [] ∨
      first part.rule = true ∧ Placed text part.start.offset part.stop.offset (g part)) :
    Picked text parts first (parts.flatMap g) := by
  induction parts with
  | nil => exact ⟨[], List.nil_sublist _, .nil⟩
  | cons part rest ih =>
      obtain ⟨hpart, hrest⟩ := List.forall_mem_cons.1 hg
      obtain ⟨chosen, hchosen, hlaid⟩ := ih hrest
      rw [List.flatMap_cons]
      rcases hpart with hnone | ⟨hkind, hplaced⟩
      · rw [hnone]
        exact ⟨chosen, hchosen.trans ((List.sublist_cons_self part rest).filter _), hlaid⟩
      · refine ⟨part :: chosen, ?_, .cons hplaced hlaid⟩
        simpa [hkind] using hchosen

theorem params (h : Standing text rule whole parts) :
    Picked text parts (ofKind .params) ((paramsOf parts).map .pattern) := by
  rw [paramsOf, List.map_flatMap]
  refine pickAll fun part hpart => ?_
  have hfits := h.fits part hpart
  have hcategory := hfits.category_eq
  have hplaced := hfits.placed
  split
  · rename_i values heq
    rw [heq] at hcategory hplaced
    exact .inr ⟨decide_eq_true hcategory.symm, hplaced⟩
  · exact .inl rfl

theorem args (h : Standing text rule whole parts) :
    Picked text parts (fun r => ofKind .exprs r || ofKind .trailer r)
      ((argsOf parts).map .expr) := by
  rw [argsOf, List.map_flatMap]
  refine pickAll fun part hpart => ?_
  have hfits := h.fits part hpart
  have hcategory := hfits.category_eq
  have hplaced := hfits.placed
  split
  · rename_i values heq
    rw [heq] at hcategory hplaced
    exact .inr ⟨Bool.or_eq_true_iff.2 (.inl (decide_eq_true hcategory.symm)), hplaced⟩
  · rename_i values heq
    rw [heq] at hcategory hplaced
    exact .inr ⟨Bool.or_eq_true_iff.2 (.inr (decide_eq_true hcategory.symm)), hplaced⟩
  · exact .inl rfl

/-! ## The first part -/

/-- The first part of a tree, and those behind it. -/
theorem first_part (h : Standing text rule whole parts) {r : Rule} {rules : List Rule}
    (hrules : parts.map Part.rule = r :: rules) :
    ∃ part rest, parts = part :: rest ∧ part.rule = r ∧ part.Fits text ∧
      whole.start.offset ≤ part.start.offset ∧ part.start.offset ≤ part.stop.offset ∧
      Between part.stop.offset rest whole.stop.offset ∧ ∀ other ∈ rest, other.Fits text := by
  obtain ⟨part, rest, rfl, hrule, -⟩ := List.map_eq_cons_iff.1 hrules
  obtain ⟨hpart, hrest⟩ := List.forall_mem_cons.1 h.fits
  cases h.between with
  | cons hstart hstop hbetween =>
      exact ⟨part, rest, rfl, hrule, hpart, hstart, hstop, hbetween, hrest⟩

/-- The first part of a tree, if it is an expression. -/
theorem first_expr (h : Standing text rule whole parts) {r : Rule} {rules : List Rule}
    (hrules : parts.map Part.rule = r :: rules) (hr : categoryOf r = .expr) {e : Expr}
    (he : (exprsOf parts).head? = some e) :
    ∃ middle, whole.start.offset ≤ middle ∧
      Placed text whole.start.offset middle [.expr e] ∧
      Between middle parts.tail whole.stop.offset ∧ ∀ other ∈ parts.tail, other.Fits text := by
  obtain ⟨part, rest, rfl, hrule, hpart, hstart, hstop, hbetween, hfits⟩ := h.first_part hrules
  have hcategory := hpart.category_eq
  have hplaced := hpart.placed.widen hstart (Nat.le_refl _)
  rw [hrule, hr] at hcategory
  refine ⟨part.stop.offset, Nat.le_trans hstart hstop, ?_, hbetween, hfits⟩
  cases hmeaning : part.meaning with
  | expr value =>
      rw [hmeaning] at hplaced
      rw [exprsOf, List.filterMap_cons_some (by rw [hmeaning])] at he
      obtain rfl := Option.some.inj he
      exact hplaced
  | _ => simp [hmeaning, Meaning.category] at hcategory

end Standing

end EventLoop.Script
