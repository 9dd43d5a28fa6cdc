import EventLoop.Proofs.Script.Placed
import EventLoop.Proofs.Script.Seam
import EventLoop.Proofs.Script.Tree
import EventLoop.Script.Parse

/-!
# Parts and what is picked from them

The meaning of a tree is put together from the parts of some kinds among its
children.  What kind of meaning a part has is decided by its rule
(`categoryOf`), and the grammar says in which order rules stand, so that it also
decides in which order meanings of several kinds are found.

`Standing` is what is known of the parts of a tree when its meaning is put
together.  The phrases of some of them are placed between the ends of the tree if
they are `Picked` in the order in which the parts stand.
-/

namespace EventLoop.Script

open Peg

/-! ## Kinds of meanings -/

/-- The kind of a meaning. -/
inductive Category where
  | token
  | stmt
  | expr
  | exprs
  | pattern
  | params
  | slot
  | patternProperty
  | declarator
  | declaration
  | init
  | clause
  | switchCase
  | handler
  | member
  | method
  | property
  | key
  | body
  | trailer
  deriving DecidableEq

/-- The kind of a meaning. -/
def Meaning.category : Meaning → Category
  | .token => .token
  | .stmt _ => .stmt
  | .expr _ => .expr
  | .exprs _ => .exprs
  | .pattern _ => .pattern
  | .params _ => .params
  | .slot _ => .slot
  | .patternProperty _ _ => .patternProperty
  | .declarator _ => .declarator
  | .declaration _ _ => .declaration
  | .init _ => .init
  | .clause _ => .clause
  | .switchCase _ => .switchCase
  | .handler _ _ => .handler
  | .member _ => .member
  | .method _ _ _ => .method
  | .property _ _ _ => .property
  | .key _ => .key
  | .body _ => .body
  | .args _ | .access _ _ _ | .index _ => .trailer

/-- The kind of the meanings of a rule. -/
def categoryOf : Rule → Category
  | .statement | .elseClause | .finallyClause | .block | .emptyStmt | .functionDecl | .declareStmt
  | .ifStmt | .switchStmt | .classDecl | .forLoopStmt | .forStmt | .whileStmt | .doWhileStmt
  | .returnStmt | .throwStmt | .breakStmt | .continueStmt | .tryStmt | .labeledStmt | .exprStmt
  | .unknownStmt => .stmt
  | .param | .bindingTarget | .bindingElement | .patternShorthand | .restElement | .arrayPattern
  | .objectPattern => .pattern
  | .assignExpr | .literal | .parenExpr | .templateSub | .classHeritage | .primary | .expression
  | .spreadElement | .assignment | .arrowFunction | .functionExpr | .ternaryExpr | .nullishExpr
  | .logicalOrExpr | .logicalAndExpr | .equalityExpr | .comparisonExpr | .additiveExpr
  | .multiplicativeExpr | .exponentExpr | .unaryExpr | .awaitExpr | .postfixExpr | .callExpr
  | .newCallee | .newExpr | .arrayLit | .objectLit | .number | .string | .boolean | .nullLit
  | .template | .regex => .expr
  | .paramList | .arrowParams => .params
  | .patternSlot => .slot
  | .patternPair | .patternProp => .patternProperty
  | .declarator => .declarator
  | .varDecl => .declaration
  | .forInit => .init
  | .forTest | .forUpdate => .clause
  | .switchCase => .switchCase
  | .catchClause => .handler
  | .methodDef => .method
  | .classField | .classMember => .member
  | .propertyPair | .propertyShorthand | .property => .property
  | .propertyKey => .key
  | .arrowBody => .body
  | .trailer | .callSuffix | .optionalAccess | .regularAccess | .indexAccess => .trailer
  | .argList => .exprs
  | _ => .token

/-- The rules whose meanings are of a kind. -/
def ofKind (category : Category) (rule : Rule) : Bool :=
  categoryOf rule = category

/-- A single rule. -/
def only (rule : Rule) (other : Rule) : Bool :=
  other = rule

/-- The phrases of what a tree stands for. -/
def Meaning.phrases : Meaning → List Phrase
  | .token | .key _ | .access _ _ _ => []
  | .stmt value | .handler _ value => [.stmt value]
  | .expr value | .index value => [.expr value]
  | .method _ _ function => [.method function]
  | .property _ keySpan value => [.ofProperty keySpan value]
  | .exprs values | .args values => values.map .expr
  | .pattern value | .patternProperty _ value => [.pattern value]
  | .params values => values.map .pattern
  | .slot value => value.toList.map .pattern
  | .declarator value => [.declarator value]
  | .declaration _ values => values.map .declarator
  | .init value => value.toList.map .stmt
  | .clause value => value.toList.map .expr
  | .switchCase value => [.switchCase value]
  | .member value => value.toList.map .member
  | .body value => [.ofBody value]

/-! ## Parts in a row -/

/-- Parts stand one after the other between two offsets. -/
inductive Between : Nat → List Part → Nat → Prop where
  | nil {first last : Nat} (h : first ≤ last) : Between first [] last
  | cons {first last : Nat} {part : Part} {rest : List Part} (hstart : first ≤ part.start.offset)
      (hpart : part.start.offset ≤ part.stop.offset)
      (hrest : Between part.stop.offset rest last) : Between first (part :: rest) last

namespace Between

variable {first middle last : Nat} {parts chosen : List Part}

theorem le (h : Between first parts last) : first ≤ last := by
  induction h with
  | nil h => exact h
  | cons hstart hpart _ ih => exact Nat.le_trans hstart (Nat.le_trans hpart ih)

theorem before (h : Between middle parts last) (hle : first ≤ middle) :
    Between first parts last := by
  cases h with
  | nil hlast => exact .nil (Nat.le_trans hle hlast)
  | cons hstart hpart hrest => exact .cons (Nat.le_trans hle hstart) hpart hrest

theorem sublist (h : Between first parts last) (hchosen : chosen.Sublist parts) :
    Between first chosen last := by
  induction h generalizing chosen with
  | nil hle =>
      rw [List.sublist_nil.1 hchosen]
      exact .nil hle
  | cons hstart hpart _ ih =>
      cases hchosen with
      | cons _ hrest => exact (ih hrest).before (Nat.le_trans hstart hpart)
      | cons_cons _ hrest => exact .cons hstart hpart (ih hrest)

end Between

/-- Some parts, each with phrases that are placed between its ends. -/
inductive Laid (text : List Char) : List Part → List Phrase → Prop where
  | nil : Laid text [] []
  | cons {part : Part} {rest : List Part} {phrases others : List Phrase}
      (h : Placed text part.start.offset part.stop.offset phrases) (hrest : Laid text rest others) :
      Laid text (part :: rest) (phrases ++ others)

namespace Laid

variable {text : List Char} {parts rest : List Part} {phrases others : List Phrase}

theorem append (h : Laid text parts phrases) (hrest : Laid text rest others) :
    Laid text (parts ++ rest) (phrases ++ others) := by
  induction h with
  | nil => exact hrest
  | cons hplaced _ ih =>
      rw [List.append_assoc]
      exact .cons hplaced ih

theorem placed (h : Laid text parts phrases) {first last : Nat}
    (hbetween : Between first parts last) : Placed text first last phrases := by
  induction h generalizing first with
  | nil => exact .nil text first last
  | cons hplaced _ ih =>
      cases hbetween with
      | cons hstart hpart hrest =>
          exact (hplaced.widen hstart (Nat.le_refl _)).append (ih hrest) (Nat.le_refl _)
            (Nat.le_trans hstart hpart) hrest.le

end Laid

/-- What comes of some parts with rules of a kind, in the order in which they
stand. -/
def Picked (text : List Char) (parts : List Part) (kind : Rule → Bool)
    (phrases : List Phrase) : Prop :=
  ∃ chosen : List Part, chosen.Sublist (parts.filter fun part => kind part.rule) ∧
    Laid text chosen phrases

theorem Picked.none (text : List Char) (parts : List Part) (kind : Rule → Bool) :
    Picked text parts kind [] :=
  ⟨[], List.nil_sublist _, .nil⟩

/-- If no element of one kind stands behind one of another kind, they can be
told apart one kind after the other. -/
theorem filter_append_filter {α : Type} {first second : α → Bool} {elements : List α}
    (horder : elements.Pairwise fun a b => second a = false ∨ first b = false)
    (hdisjoint : ∀ a ∈ elements, first a = false ∨ second a = false) :
    elements.filter first ++ elements.filter second =
      elements.filter fun a => first a || second a := by
  induction elements with
  | nil => rfl
  | cons a rest ih =>
      obtain ⟨hacross, hrest⟩ := List.pairwise_cons.1 horder
      obtain ⟨hself, hothers⟩ := List.forall_mem_cons.1 hdisjoint
      have htail := ih hrest hothers
      by_cases hfirst : first a = true
      · simp [hfirst, hself.resolve_left (by simp [hfirst]), ← htail]
      · by_cases hsecond : second a = true
        · have hnone : rest.filter first = [] := List.filter_eq_nil_iff.2 fun b hb => by
            simpa [hsecond] using hacross b hb
          simp [hfirst, hsecond, hnone, ← htail]
        · simpa [hfirst, hsecond] using htail

/-- Rules whose parts end where a name has ended. -/
def isWhole (rule : Rule) : Bool :=
  isWordRule rule || isNameRule rule

/-- Rules for tokens of which no part is a token of its own. -/
def isPlainToken (rule : Rule) : Bool :=
  kind rule = .token && (body rule).mentions = []

/-- A part that is read from a stretch of a text.  Most parts are not empty and do not start in the
middle of a name, words are read to their ends, the parts for names stand for names, and those
for raw statements for raw text. -/
structure Part.Stands (text : List Char) (part : Part) : Prop where
  leads : (Cursor.start text).Leads part.start
  inside : part.start.Leads part.stop
  span_eq : part.span = (LineMap.ofText text).span part.start.offset part.stop.offset
  moves : mayBeEmpty part.rule = false → part.start.offset < part.stop.offset
  aligned : isPiece part.rule = false → AtSeam text part.start.rest
  ended : isWhole part.rule = true → startsInName part.stop.rest = false
  spelled : isPlainToken part.rule = true → (body part.rule).Spells part.text
  name : isNameRule part.rule = true → IsAccepted part.string
  key : part.rule = .identifierName → IsName part.text
  raw : part.rule = .unknownStmt → IsRawText part.text ∧ IsWholeRaw part.text part.stop.rest ∧
    Unsupported part.start

theorem moves_of_isNameRule {rule : Rule} (h : isNameRule rule = true) :
    mayBeEmpty rule = false := by
  cases rule <;> first | rfl | contradiction

theorem Part.Stands.stretch {text : List Char} {part : Part} (h : part.Stands text) :
    part.span.StretchOf text := by
  rw [h.span_eq]
  exact LineMap.stretchOf_span h.leads h.inside

theorem Part.Stands.span_ends {text : List Char} {part : Part} (h : part.Stands text) :
    part.span.start = part.start.offset ∧ part.span.stop = part.stop.offset := by
  rw [h.span_eq]
  exact ⟨rfl, rfl⟩

theorem isPiece_of_isWhole {rule : Rule} (h : isWhole rule = true) : isPiece rule = false := by
  cases rule <;> first | rfl | contradiction

/-- The part of a word is a token of the text. -/
theorem Part.Stands.isToken {text : List Char} {part : Part} (h : part.Stands text)
    (hwhole : isWhole part.rule = true) : IsToken text part.string.toList part.span := by
  obtain ⟨before, htext, hstart, hspan⟩ := LineMap.exists_span_eq h.leads h.inside
  have hseam := h.aligned (isPiece_of_isWhole hwhole)
  rw [hstart] at hseam
  rw [Part.string, String.toList_ofList]
  refine ⟨before, part.stop.rest, htext, h.span_eq.trans hspan, hseam.seam ?_, h.ended hwhole⟩
  rw [htext, List.append_assoc]

theorem isWhole_of_isNameRule {rule : Rule} (h : isNameRule rule = true) : isWhole rule = true := by
  rw [isWhole, h, Bool.or_true]

/-- A phrase that is nothing but a name is placed where the name stands. -/
theorem Part.Stands.named {text : List Char} {part : Part} (h : part.Stands text)
    (hrule : isNameRule part.rule = true) {phrase : Phrase}
    (hchildren : phrase.children = [] := by rfl)
    (hnames : phrase.names = [part.string] := by rfl) (hspan : phrase.span = part.span := by rfl)
    (hread : IsToken text part.string.toList part.span → phrase.IsRead text := by exact id) :
    Placed text part.start.offset part.stop.offset [phrase] := by
  have htoken := hread (h.isToken (isWhole_of_isNameRule hrule))
  obtain ⟨hstart, hstop⟩ := h.span_ends
  have hstretch := h.stretch
  rw [← hspan] at hstretch hstart hstop
  refine Placed.whole ?_ hstretch hstart hstop (h.moves (moves_of_isNameRule hrule)) ?_ htoken
  · rw [hchildren]
    exact .nil text _ _
  · rw [hnames, List.forall_mem_singleton]
    exact h.name hrule

/-- The patterns that a rule gives. -/
def givesPattern : Rule → Pattern → Bool
  | .bindingTarget, pattern | .arrayPattern, pattern | .objectPattern, pattern => pattern.isTarget
  | .bindingElement, pattern | .patternShorthand, pattern => !pattern.isRest
  | _, _ => true

/-- What is known of meanings by their rule, or because they are no phrases yet: a handler has the
name of an identifier or none, a method is a function with its name, an access is to a name, and
what takes up the rest of an object has no key. -/
def Part.Proper (part : Part) : Prop :=
  match part.meaning with
  | .pattern value => givesPattern part.rule value = true
  | .patternProperty key target => target.isRest = true → key = "..."
  | .handler name _ => ∀ n ∈ name.toList, IsAccepted n
  | .method name _ function => ∃ params isAsync body,
    function = .function (some name) params isAsync false (.block body) part.span
  | .access _ property _ => IsName property.toList
  | _ => True

/-- A part whose meaning is of the kind of its rule, and has its phrases between
the ends of the part. -/
structure Part.Fits (text : List Char) (part : Part) : Prop where
  stands : part.Stands text
  category_eq : part.meaning.category = categoryOf part.rule
  placed : Placed text part.start.offset part.stop.offset part.meaning.phrases
  proper : part.Proper

/-! ## Picking parts -/

/-- What is known of a tree and the parts inside it. -/
structure Standing (text : List Char) (rule : Rule) (whole : Part) (parts : List Part) : Prop where
  stands : whole.Stands text
  rule_eq : whole.rule = rule
  between : Between whole.start.offset parts whole.stop.offset
  fits : ∀ part ∈ parts, part.Fits text
  labels : kind rule ≠ .token → Labels grammar (body rule) (parts.map Part.rule)
  guarded : rule = .declarator →
    Rule.assignExpr ∈ parts.map Part.rule ∨ whole.stop.rest.head? ≠ some '='

namespace Standing

variable {text : List Char} {rule : Rule} {whole : Part} {parts : List Part} {phrase : Phrase}
  {phrases others : List Phrase} {first second : Rule → Bool}

/-- What is picked from a tree is placed between its ends. -/
theorem placed (h : Standing text rule whole parts) (hpicked : Picked text parts first phrases) :
    Placed text whole.start.offset whole.stop.offset phrases := by
  obtain ⟨chosen, hchosen, hlaid⟩ := hpicked
  exact hlaid.placed (h.between.sublist (hchosen.trans List.filter_sublist))

/-- The phrase of a whole tree is placed if what is picked from the tree are its children. -/
theorem node (h : Standing text rule whole parts)
    (hpicked : Picked text parts first phrase.children)
    (hnames : ∀ name ∈ phrase.names, IsAccepted name := by simp [Phrase.names])
    (hspan : phrase.span = whole.span := by rfl) (hmoves : mayBeEmpty rule = false := by rfl)
    (hread : phrase.IsRead text := by trivial) :
    Placed text whole.start.offset whole.stop.offset [phrase] := by
  obtain ⟨hstart, hstop⟩ := h.stands.span_ends
  have hstretch := h.stands.stretch
  rw [← hspan] at hstretch hstart hstop
  exact (h.placed hpicked).whole hstretch hstart hstop (h.stands.moves (h.rule_eq ▸ hmoves)) hnames
    hread

/-- The phrase of a whole tree that consists of no others. -/
theorem alone (h : Standing text rule whole parts) (hchildren : phrase.children = [] := by rfl)
    (hnames : ∀ name ∈ phrase.names, IsAccepted name := by simp [Phrase.names])
    (hspan : phrase.span = whole.span := by rfl) (hmoves : mayBeEmpty rule = false := by rfl)
    (hread : phrase.IsRead text := by trivial) :
    Placed text whole.start.offset whole.stop.offset [phrase] := by
  have hnone : Picked text parts (fun _ => false) phrase.children := by
    rw [hchildren]
    exact .none text parts _
  exact h.node hnone hnames hspan hmoves hread

/-- Parts of two kinds are picked in the order in which the grammar puts them. -/
theorem append (h : Standing text rule whole parts) (hfirst : Picked text parts first phrases)
    (hsecond : Picked text parts second others)
    (hputs : (Script.body rule).puts first second = true)
    (hrecorded : kind rule ≠ .token ∧ kind rule ≠ .hidden := by decide) :
    Picked text parts (fun r => first r || second r) (phrases ++ others) := by
  obtain ⟨chosen, hchosen, hlaid⟩ := hfirst
  obtain ⟨chosenOthers, hchosenOthers, hlaidOthers⟩ := hsecond
  obtain ⟨horder, hdisjoint⟩ := (h.labels hrecorded.1).pairwise_of_puts
    (kind_mentions_ne rule hrecorded.1 hrecorded.2) hputs
  refine ⟨chosen ++ chosenOthers, ?_, hlaid.append hlaidOthers⟩
  rw [List.pairwise_map] at horder
  rw [List.forall_mem_map] at hdisjoint
  rw [← filter_append_filter horder hdisjoint]
  exact hchosen.append hchosenOthers

/-- Values that come from parts of a kind, each with phrases between the ends of
its part. -/
theorem pick {α : Type} {f : Part → Option α} {phrases : α → List Phrase}
    (hf : ∀ part ∈ parts, ∀ a, f part = some a →
      first part.rule = true ∧ Placed text part.start.offset part.stop.offset (phrases a))
    {values : List α} (hvalues : values.Sublist (parts.filterMap f)) :
    Picked text parts first (values.flatMap phrases) := by
  induction parts generalizing values with
  | nil =>
      rw [List.sublist_nil.1 hvalues]
      exact ⟨[], List.nil_sublist _, .nil⟩
  | cons part rest ih =>
      obtain ⟨hpart, hrest⟩ := List.forall_mem_cons.1 hf
      have hmore : ∀ {values : List α}, values.Sublist (rest.filterMap f) →
          Picked text (part :: rest) first (values.flatMap phrases) := by
        intro values hvalues
        obtain ⟨chosen, hchosen, hlaid⟩ := ih hrest hvalues
        exact ⟨chosen, hchosen.trans ((List.sublist_cons_self part rest).filter _), hlaid⟩
      cases hvalue : f part with
      | none =>
          rw [List.filterMap_cons_none hvalue] at hvalues
          exact hmore hvalues
      | some a =>
          rw [List.filterMap_cons_some hvalue] at hvalues
          cases hvalues with
          | cons _ hvalues => exact hmore hvalues
          | cons_cons _ hvalues =>
              obtain ⟨hkind, hplaced⟩ := hpart a hvalue
              obtain ⟨chosen, hchosen, hlaid⟩ := ih hrest hvalues
              refine ⟨part :: chosen, ?_, .cons hplaced hlaid⟩
              simpa [hkind] using hchosen

/-- Values that are read off the meanings of parts. -/
theorem pickMeanings (h : Standing text rule whole parts) {α : Type} {f : Part → Option α}
    (meaning : α → Meaning) {category : Category} (hcategory : ∀ a, (meaning a).category = category)
    (hf : ∀ part a, f part = some a → part.meaning = meaning a) {values : List α}
    (hvalues : values.Sublist (parts.filterMap f)) :
    Picked text parts (ofKind category) (values.flatMap fun a => (meaning a).phrases) := by
  refine pick (fun part hpart a ha => ?_) hvalues
  have hfits := h.fits part hpart
  have hmeaning := hf part a ha
  refine ⟨?_, ?_⟩
  · rw [ofKind, ← hfits.category_eq, hmeaning, hcategory, decide_eq_true rfl]
  · rw [← hmeaning]
    exact hfits.placed

end Standing

end EventLoop.Script
