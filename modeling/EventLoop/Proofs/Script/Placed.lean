import EventLoop.Proofs.Script.Identifier
import EventLoop.Proofs.Script.LastResort
import EventLoop.Proofs.Script.Literal
import EventLoop.Proofs.Script.Phrase
import EventLoop.Proofs.Source.Stretch

/-!
# Phrases in their places

A phrase is sound (`Phrase.Sound`) if its span is a stretch of the text, its children stand
in it one after the other, the names that it gives or refers to are taken for identifiers, and
it is of a kind that is read (`Phrase.IsRead`).

Phrases are `Placed` between two offsets if they stand there one after the other, and
they and all phrases inside them are sound.  A phrase is placed if its children are.  Most
phrases span all that they are read from (`Placed.whole`); the others start with their
first child and stop with the last thing that was read (`Placed.merge`).
-/

namespace EventLoop.Script

/-- A raw statement stands where no other statement is read, keeps what stands in its span, which is
a raw line, but for a semicolon and blanks at the end, and goes as far as raw text does. -/
def KeepsRaw (text : List Char) (raw : String) (span : Span) : Prop :=
  ∃ before inside after, text = before ++ inside ++ after ∧ span = .ofStretch before inside ∧
    raw.toList = Text.trimEnd (withoutSemicolon inside) ∧ RawLine inside ∧
    Unsupported ⟨byteLength before, inside ++ after⟩ ∧ IsWholeRaw inside after

/-- What is declared without a value does not stand before an equals sign. -/
def IsGuarded (text : List Char) (span : Span) : Prop :=
  ∃ before inside after, text = before ++ inside ++ after ∧ span = .ofStretch before inside ∧
    after.head? ≠ some '='

/-- Characters stand in a text at a span, and no name goes on into them or behind them. -/
def IsToken (text inside : List Char) (span : Span) : Prop :=
  ∃ before after, text = before ++ inside ++ after ∧ span = .ofStretch before inside ∧
    Seam before (inside ++ after) ∧ startsInName after = false

namespace Pattern

/-- Whether a pattern is a name, an array or an object. -/
def isTarget : Pattern → Bool
  | .ident _ _ | .array _ _ | .object _ _ => true
  | _ => false

/-- Whether a pattern takes up what is left. -/
def isRest : Pattern → Bool
  | .rest _ _ => true
  | _ => false

end Pattern

namespace Phrase

/-- Phrases stand between two offsets, one after the other. -/
structure InRow (first last : Nat) (phrases : List Phrase) : Prop where
  inOrder : phrases.Pairwise fun a b => a.span.stop ≤ b.span.start
  within : ∀ phrase ∈ phrases, first ≤ phrase.span.start ∧ phrase.span.stop ≤ last

/-- What is read is of this kind: names, numbers and words for values are tokens of the text, an
access is to a name, there is more than one expression in a list with commas, what takes up the
rest of an object has no key, defaults and rests belong to names, arrays and objects, what is
declared without a value does not stand before an equals sign, and a raw statement keeps its
text. -/
def IsRead (text : List Char) : Phrase → Prop
  | .stmt (.unknown raw span) => KeepsRaw text raw span
  | .expr (.ident name span) | .pattern (.ident name span) => IsToken text name.toList span
  | .expr (.number value span) =>
    ∃ inside, IsToken text inside span ∧ Denotes (withoutSeparators inside) value
  | .expr (.bool value span) => IsToken text (toString value).toList span
  | .expr (.null span) => IsToken text "null".toList span
  | .expr (.member _ property _ _ _) => IsName property.toList
  | .expr (.sequence exprs _) => 2 ≤ exprs.length
  | .pattern (.object properties _) =>
    ∀ property ∈ properties, property.2.isRest = true → property.1 = "..."
  | .pattern (.rest target _) | .pattern (.withDefault target _ _) => target.isTarget = true
  | .declarator (.mk target init span) =>
    target.isTarget = true ∧ (init = none → IsGuarded text span)
  | _ => True

/-- A phrase is read from a stretch of a text, in which its children stand in a row. -/
structure Sound (text : List Char) (phrase : Phrase) : Prop where
  stretch : phrase.span.StretchOf text
  moves : phrase.span.start < phrase.span.stop
  row : InRow phrase.span.start phrase.span.stop phrase.children
  accepted : ∀ name ∈ phrase.names, IsAccepted name
  isRead : phrase.IsRead text

namespace InRow

variable {first middle next last : Nat} {phrases others : List Phrase}

theorem widen {before after : Nat} (h : InRow first last phrases) (hbefore : before ≤ first)
    (hafter : last ≤ after) : InRow before after phrases := by
  refine ⟨h.inOrder, fun phrase hphrase => ?_⟩
  obtain ⟨hfirst, hlast⟩ := h.within phrase hphrase
  exact ⟨Nat.le_trans hbefore hfirst, Nat.le_trans hlast hafter⟩

theorem append (h : InRow first middle phrases) (hothers : InRow next last others)
    (hle : middle ≤ next) (hfirst : first ≤ middle) (hlast : next ≤ last) :
    InRow first last (phrases ++ others) := by
  have hwide := h.widen (Nat.le_refl first) (Nat.le_trans hle hlast)
  have hwideOthers := hothers.widen (Nat.le_trans hfirst hle) (Nat.le_refl last)
  refine ⟨List.pairwise_append.2 ⟨h.inOrder, hothers.inOrder, ?_⟩,
    List.forall_mem_append.2 ⟨hwide.within, hwideOthers.within⟩⟩
  intro a ha b hb
  have hstop := (h.within a ha).2
  have hstart := (hothers.within b hb).1
  omega

end InRow

end Phrase

/-- Phrases that stand between two offsets, one after the other, and are sound. -/
structure Placed (text : List Char) (first last : Nat) (phrases : List Phrase) : Prop where
  row : Phrase.InRow first last phrases
  sound : ∀ phrase ∈ phrases, phrase.Everywhere (Phrase.Sound text)

namespace Placed

variable {text : List Char} {first middle next last : Nat} {phrase left : Phrase}
  {phrases others : List Phrase}

theorem nil (text : List Char) (first last : Nat) : Placed text first last [] :=
  ⟨⟨.nil, by simp⟩, by simp⟩

theorem widen {before after : Nat} (h : Placed text first last phrases) (hbefore : before ≤ first)
    (hafter : last ≤ after) : Placed text before after phrases :=
  ⟨h.row.widen hbefore hafter, h.sound⟩

theorem append (h : Placed text first middle phrases) (hothers : Placed text next last others)
    (hle : middle ≤ next) (hfirst : first ≤ middle) (hlast : next ≤ last) :
    Placed text first last (phrases ++ others) :=
  ⟨h.row.append hothers.row hle hfirst hlast, List.forall_mem_append.2 ⟨h.sound, hothers.sound⟩⟩

/-- A single phrase that is sound. -/
theorem single (h : phrase.Everywhere (Phrase.Sound text)) (hfirst : first ≤ phrase.span.start)
    (hlast : phrase.span.stop ≤ last) : Placed text first last [phrase] :=
  ⟨⟨List.pairwise_singleton _ _, by simpa using ⟨hfirst, hlast⟩⟩, by simpa using h⟩

theorem sound_single (h : Placed text first last [phrase]) :
    phrase.Everywhere (Phrase.Sound text) ∧ first ≤ phrase.span.start ∧
      phrase.span.stop ≤ last := by
  obtain ⟨hfirst, hlast⟩ := h.row.within phrase List.mem_cons_self
  exact ⟨h.sound phrase List.mem_cons_self, hfirst, hlast⟩

/-- A phrase that spans all that it is read from. -/
theorem whole (h : Placed text first last phrase.children) (hstretch : phrase.span.StretchOf text)
    (hstart : phrase.span.start = first) (hstop : phrase.span.stop = last) (hmoves : first < last)
    (hnames : ∀ name ∈ phrase.names, IsAccepted name) (hread : phrase.IsRead text) :
    Placed text first last [phrase] := by
  subst hstart hstop
  have hsound : phrase.Sound text := ⟨hstretch, hmoves, h.row, hnames, hread⟩
  exact single (.intro hsound h.sound) (Nat.le_refl _) (Nat.le_refl _)

/-- A phrase that starts with its first child and goes on behind it. -/
theorem merge (hleft : Placed text first middle [left]) {other : Span}
    (hother : other.StretchOf text) (hothers : Placed text other.start other.stop others)
    (hle : middle ≤ other.start) (hlast : other.stop ≤ last)
    (hspan : phrase.span = left.span.merge other) (hchildren : phrase.children = left :: others)
    (hnames : ∀ name ∈ phrase.names, IsAccepted name) (hread : phrase.IsRead text) :
    Placed text first last [phrase] := by
  obtain ⟨hsound, hfirst, hstop⟩ := hleft.sound_single
  have hmoves := hsound.here.moves
  have hgap := Nat.le_trans hstop hle
  have hotherStop := hother.start_le_stop
  obtain ⟨hstretch, hstart, hend⟩ := hsound.here.stretch.merge hother hgap
  rw [← hspan] at hstretch hstart hend
  have hrow : Placed text left.span.start other.stop (left :: others) :=
    (single hsound (Nat.le_refl _) (Nat.le_refl _)).append hothers hgap (Nat.le_of_lt hmoves)
      hotherStop
  rw [← hchildren, ← hstart, ← hend] at hrow
  refine (hrow.whole hstretch rfl rfl (by omega) hnames hread).widen (by omega) (by omega)

/-- A function that is a method. -/
theorem method {e : Expr} (h : Placed text first last [.expr e]) :
    Placed text first last [.method e] := by
  obtain ⟨hsound, hfirst, hlast⟩ := h.sound_single
  have hhere := hsound.here
  have hnames : ∀ name ∈ Phrase.names (.method e), IsAccepted name := by simp [Phrase.names]
  have hmethod : (Phrase.method e).Sound text :=
    ⟨hhere.stretch, hhere.moves, hhere.row, hnames, trivial⟩
  exact single (.intro hmethod hsound.inside) hfirst hlast

/-- A member of a class that is a method is all of the method. -/
theorem member {function : Expr} (h : Placed text first last [.method function]) (name : String)
    (isStatic : Bool) : Placed text first last [.member (.method name isStatic function)] := by
  obtain ⟨hsound, hfirst, hlast⟩ := h.sound_single
  have hrow := single hsound (Nat.le_refl _) (Nat.le_refl _)
  have hmember : Placed text _ _ [.member (.method name isStatic function)] :=
    hrow.whole hsound.here.stretch rfl rfl hsound.here.moves (by simp [Phrase.names]) trivial
  exact hmember.widen hfirst hlast

/-- The value of a property. -/
theorem ofProperty {e : Expr} (h : Placed text first last [.expr e]) (keySpan : Span) :
    Placed text first last [.ofProperty keySpan e] := by
  unfold Phrase.ofProperty
  split
  · dsimp only
    split
    · exact h.method
    · exact h
  · exact h

end Placed

end EventLoop.Script
