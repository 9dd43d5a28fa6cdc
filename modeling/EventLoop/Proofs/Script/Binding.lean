import EventLoop.Proofs.Script.Grouped
import EventLoop.Proofs.Script.Placed

/-!
# Binding patterns

The text of a binding pattern is that of its parts, with brackets, commas and colons between
(`text_array` to `text_withDefault`).  A hole in an array has an empty text.

A pattern is plain (`Pattern.IsPlain`) if its names are accepted, its keys are names, and its
default values are grouped expressions.  In a script these are the patterns whose keys are names,
if the default values are single words (`isPlain_of_sound`).

The last slot of an array is no hole if it is empty, so that a hole at the end of an array takes
a comma more than a hole elsewhere.  Its text has no such comma.  The curtailed pattern
(`Pattern.curtailed`) is what is left if each array loses a hole at its end; it is the whole
pattern if and only if no array ends with a hole (`IsPlain.curtailed_eq_shape_iff`).
-/

namespace EventLoop.Script

/-- Whether an expression is a name, a truth value or `null`. -/
def Expr.isWord : Expr → Bool
  | .ident _ _ | .bool _ _ | .null _ => true
  | _ => false

/-- The keys of the properties of a pattern are names, where what takes up the rest has none, and a
default value is a name, a truth value or `null`. -/
def Phrase.IsPlain : Phrase → Prop
  | .pattern (.object properties _) =>
    ∀ property ∈ properties, property.2.isRest = false → IsName property.1.toList
  | .pattern (.withDefault _ value _) => value.isWord = true
  | _ => True

namespace Pattern

/-- A pattern of names, in which the keys are names and the default values are grouped. -/
inductive IsPlain : Pattern → Prop where
  | ident {name : String} (h : IsAccepted name) (span : Span) : IsPlain (.ident name span)
  | array {elements : List (Option Pattern)}
      (h : ∀ element, some element ∈ elements → IsPlain element) (span : Span) :
      IsPlain (.array elements span)
  | object {properties : List (String × Pattern)}
      (h : ∀ property ∈ properties, IsPlain property.2)
      (hkey : ∀ property ∈ properties, property.2.isRest = false → IsName property.1.toList)
      (hrest : ∀ property ∈ properties, property.2.isRest = true → property.1 = "...")
      (span : Span) : IsPlain (.object properties span)
  | rest {target : Pattern} (h : IsPlain target) (htarget : target.isTarget = true) (span : Span) :
      IsPlain (.rest target span)
  | withDefault {target : Pattern} {value : Expr} (h : IsPlain target)
      (htarget : target.isTarget = true) (hvalue : value.IsGrouped)
      (hsequence : value.isSequence = false) (span : Span) :
      IsPlain (.withDefault target value span)

/-- No array in a pattern, at any depth, ends with a hole. -/
inductive EndsFilled : Pattern → Prop where
  | ident (name : String) (span : Span) : EndsFilled (.ident name span)
  | array {elements : List (Option Pattern)} (hlast : elements.getLast? ≠ some none)
      (h : ∀ element, some element ∈ elements → EndsFilled element) (span : Span) :
      EndsFilled (.array elements span)
  | object {properties : List (String × Pattern)}
      (h : ∀ property ∈ properties, EndsFilled property.2) (span : Span) :
      EndsFilled (.object properties span)
  | rest {target : Pattern} (h : EndsFilled target) (span : Span) : EndsFilled (.rest target span)
  | withDefault {target : Pattern} (h : EndsFilled target) (value : Expr) (span : Span) :
      EndsFilled (.withDefault target value span)

/-! ## Plain patterns of a script -/

/-- A word of a script is grouped. -/
theorem isGrouped_of_isWord {value : Expr} {script : List Char}
    (h : (Phrase.expr value).Sound script) (hword : value.isWord = true) :
    value.IsGrouped ∧ value.isSequence = false := by
  cases value with
  | ident name span => exact ⟨.ident (h.accepted name List.mem_cons_self) span, rfl⟩
  | bool value span => exact ⟨.bool value span, rfl⟩
  | null span => exact ⟨.null span, rfl⟩
  | _ => contradiction

/-- A pattern of a script is plain if its keys are names and its default values are words. -/
theorem isPlain_of_sound {script : List Char} {phrase : Phrase}
    (h : phrase.Everywhere fun phrase => phrase.Sound script ∧ phrase.IsPlain) {p : Pattern}
    (hp : phrase = .pattern p) : p.IsPlain := by
  induction h generalizing p with
  | @intro phrase here inside ih =>
      obtain ⟨hsound, hplain⟩ := here
      subst hp
      cases p with
      | ident name span => exact .ident (hsound.accepted name List.mem_cons_self) span
      | array elements span =>
          refine .array (fun element helement => ih (.pattern element) ?_ rfl) span
          exact List.mem_flatMap.2 ⟨some element, helement, List.mem_cons_self⟩
      | object properties span =>
          refine .object (fun property hproperty => ih (.pattern property.2) ?_ rfl) hplain
            hsound.isRead span
          exact List.mem_map_of_mem hproperty
      | rest target span => exact .rest (ih _ List.mem_cons_self rfl) hsound.isRead span
      | withDefault target value span =>
          have hmem : .expr value ∈ (Phrase.pattern (withDefault target value span)).children :=
            List.mem_cons_of_mem _ List.mem_cons_self
          obtain ⟨hvalue, hsequence⟩ := isGrouped_of_isWord (inside _ hmem).here.1 hplain
          exact .withDefault (ih _ List.mem_cons_self rfl) hsound.isRead hvalue hsequence span

/-! ## Shapes -/

mutual

/-- A pattern without its spans, where the elements of its arrays are changed. -/
def mapArrays (f : List (Option Pattern) → List (Option Pattern)) : Pattern → Pattern
  | .ident name _ => .ident name .zero
  | .array elements _ => .array (f (mapElements f elements)) .zero
  | .object properties _ => .object (mapProperties f properties) .zero
  | .rest target _ => .rest (mapArrays f target) .zero
  | .withDefault target value _ => .withDefault (mapArrays f target) value.shape .zero

/-- Elements without their spans, where those of arrays among them are changed. -/
def mapElements (f : List (Option Pattern) → List (Option Pattern)) :
    List (Option Pattern) → List (Option Pattern)
  | [] => []
  | none :: elements => none :: mapElements f elements
  | some element :: elements => some (mapArrays f element) :: mapElements f elements

/-- Properties without their spans, where the elements of arrays in them are changed. -/
def mapProperties (f : List (Option Pattern) → List (Option Pattern)) :
    List (String × Pattern) → List (String × Pattern)
  | [] => []
  | (key, target) :: properties => (key, mapArrays f target) :: mapProperties f properties

end

/-- A pattern without its spans. -/
def shape : Pattern → Pattern :=
  mapArrays id

/-- A pattern without its spans, where each array that ends with a hole loses this hole. -/
def curtailed : Pattern → Pattern :=
  mapArrays elementsOf

variable {f : List (Option Pattern) → List (Option Pattern)} {p : Pattern}

theorem mapElements_eq_map (elements : List (Option Pattern)) :
    mapElements f elements = elements.map (Option.map (mapArrays f)) := by
  induction elements with
  | nil => rfl
  | cons element elements ih =>
      cases element with
      | none => exact congrArg (none :: ·) ih
      | some element => exact congrArg (some (mapArrays f element) :: ·) ih

theorem mapProperties_eq_map (properties : List (String × Pattern)) :
    mapProperties f properties = properties.map (Prod.map id (mapArrays f)) := by
  induction properties with
  | nil => rfl
  | cons property properties ih =>
      obtain ⟨key, target⟩ := property
      exact congrArg ((key, mapArrays f target) :: ·) ih

theorem shape_array (elements : List (Option Pattern)) (span : Span) :
    (array elements span).shape = .array (elements.map (Option.map shape)) .zero :=
  congrArg (array · .zero) (mapElements_eq_map elements)

theorem curtailed_array (elements : List (Option Pattern)) (span : Span) :
    (array elements span).curtailed =
      .array (elementsOf (elements.map (Option.map curtailed))) .zero :=
  congrArg (fun slots => array (elementsOf slots) .zero) (mapElements_eq_map elements)

theorem shape_object (properties : List (String × Pattern)) (span : Span) :
    (object properties span).shape = .object (properties.map (Prod.map id shape)) .zero :=
  congrArg (object · .zero) (mapProperties_eq_map properties)

theorem curtailed_object (properties : List (String × Pattern)) (span : Span) :
    (object properties span).curtailed =
      .object (properties.map (Prod.map id curtailed)) .zero :=
  congrArg (object · .zero) (mapProperties_eq_map properties)

theorem shape_rest (target : Pattern) (span : Span) :
    (rest target span).shape = .rest target.shape .zero :=
  rfl

theorem curtailed_rest (target : Pattern) (span : Span) :
    (rest target span).curtailed = .rest target.curtailed .zero :=
  rfl

theorem shape_withDefault (target : Pattern) (value : Expr) (span : Span) :
    (withDefault target value span).shape = .withDefault target.shape value.shape .zero :=
  rfl

theorem curtailed_withDefault (target : Pattern) (value : Expr) (span : Span) :
    (withDefault target value span).curtailed =
      .withDefault target.curtailed value.shape .zero :=
  rfl

/-! ## Holes at the end -/

theorem elementsOf_of_getLast? {slots : List (Option Pattern)} (h : slots.getLast? ≠ some none) :
    elementsOf slots = slots := by
  unfold elementsOf
  split
  next hlast => exact absurd hlast h
  next => rfl

theorem length_elementsOf_lt {slots : List (Option Pattern)} (h : slots.getLast? = some none) :
    (elementsOf slots).length < slots.length := by
  have hpos : 0 < slots.length := List.length_pos_of_mem (List.mem_of_getLast? h)
  rw [elementsOf, h]
  dsimp only
  rw [List.length_dropLast]
  omega

/-- An array loses nothing if and only if it does not end with a hole. -/
theorem elementsOf_map_eq_iff {g h : Pattern → Pattern} (elements : List (Option Pattern)) :
    elementsOf (elements.map (Option.map g)) = elements.map (Option.map h) ↔
      elements.getLast? ≠ some none ∧
        ∀ element, some element ∈ elements → g element = h element := by
  have hlast : (elements.map (Option.map g)).getLast? = some none ↔
      elements.getLast? = some none := by
    rw [List.getLast?_map]
    cases elements.getLast? with
    | none => simp
    | some last => cases last <;> simp
  have hmap : elements.map (Option.map g) = elements.map (Option.map h) ↔
      ∀ element, some element ∈ elements → g element = h element := by
    rw [List.map_inj_left]
    refine ⟨fun heq element helement => Option.some.inj (heq _ helement), fun heq element => ?_⟩
    cases element with
    | none => exact fun _ => rfl
    | some element => exact fun helement => congrArg some (heq element helement)
  by_cases hhole : elements.getLast? = some none
  · refine iff_of_false (fun heq => ?_) fun hboth => hboth.1 hhole
    have hlt := length_elementsOf_lt (hlast.2 hhole)
    rw [heq, List.length_map, List.length_map] at hlt
    exact Nat.lt_irrefl _ hlt
  · rw [elementsOf_of_getLast? (mt hlast.1 hhole), hmap]
    exact (and_iff_right hhole).symm

/-- **A pattern loses nothing if and only if no array in it ends with a hole.** -/
theorem IsPlain.curtailed_eq_shape_iff (h : p.IsPlain) : p.curtailed = p.shape ↔ p.EndsFilled := by
  induction h with
  | ident _ span => exact iff_of_true rfl (.ident _ span)
  | @array elements _ span ih =>
      rw [curtailed_array, shape_array, array.injEq, elementsOf_map_eq_iff]
      constructor
      · rintro ⟨⟨hlast, hall⟩, -⟩
        exact .array hlast (fun element helement =>
          (ih element helement).1 (hall element helement)) span
      · rintro (_ | ⟨hlast, hall⟩)
        exact ⟨⟨hlast, fun element helement =>
          (ih element helement).2 (hall element helement)⟩, rfl⟩
  | @object properties _ _ _ span ih =>
      rw [curtailed_object, shape_object, object.injEq, List.map_inj_left]
      constructor
      · rintro ⟨hall, -⟩
        exact .object (fun property hproperty =>
          (ih property hproperty).1 (congrArg Prod.snd (hall property hproperty))) span
      · rintro (_ | _ | ⟨hall⟩)
        exact ⟨fun property hproperty =>
          Prod.ext rfl ((ih property hproperty).2 (hall property hproperty)), rfl⟩
  | rest _ _ span ih =>
      rw [curtailed_rest, shape_rest, rest.injEq, ih]
      constructor
      · exact fun h => .rest h.1 span
      · rintro (_ | _ | _ | ⟨h⟩)
        exact ⟨h, rfl⟩
  | withDefault _ _ _ _ span ih =>
      rw [curtailed_withDefault, shape_withDefault, withDefault.injEq, ih]
      constructor
      · exact fun h => .withDefault h.1 _ span
      · rintro (_ | _ | _ | _ | ⟨h⟩)
        exact ⟨h, rfl, rfl⟩

/-! ## Texts -/

/-- The text of a slot of an array, which is empty if the slot is. -/
def slotText : Option Pattern → List Char
  | none => []
  | some element => element.render.toList

/-- The text of a property. -/
def propertyText (property : String × Pattern) : List Char :=
  if property.2.standsFor property.1 then property.2.render.toList
  else property.1.toList ++ ':' :: ' ' :: property.2.render.toList

theorem toList_renderElements (elements : List (Option Pattern)) :
    (renderElements elements).map String.toList = elements.map slotText := by
  induction elements with
  | nil => rw [renderElements, List.map_nil, List.map_nil]
  | cons element elements ih =>
      cases element <;> (rw [renderElements, List.map_cons, ih]; rfl)

theorem toList_renderTargets (properties : List (String × Pattern)) :
    (renderTargets properties).map String.toList = properties.map propertyText := by
  induction properties with
  | nil => rw [renderTargets, List.map_nil, List.map_nil]
  | cons property properties ih =>
      obtain ⟨key, target⟩ := property
      rw [renderTargets, List.map_cons, ih, List.map_cons, propertyText]
      split <;> simp

theorem text_array (elements : List (Option Pattern)) (span : Span) :
    (array elements span).render.toList = '[' :: (joined (elements.map slotText) ++ [']']) := by
  change ("[" ++ commaSeparated (renderElements elements) ++ "]").toList = _
  rw [String.toList_append, String.toList_append, toList_commaSeparated, toList_renderElements]
  rfl

theorem text_object_nil (span : Span) :
    (object [] span).render.toList = ['\x7b'] ++ ['\x7d'] := by
  rw [render, renderTargets]
  rfl

theorem text_object (property : String × Pattern) (properties : List (String × Pattern))
    (span : Span) : (object (property :: properties) span).render.toList =
      '\x7b' :: ' ' :: (joined ((property :: properties).map propertyText) ++ [' ', '\x7d']) := by
  change (if (renderTargets (property :: properties)).isEmpty then "\x7b\x7d"
    else "\x7b " ++ commaSeparated (renderTargets (property :: properties)) ++ " \x7d").toList = _
  have hcons : (renderTargets (property :: properties)).isEmpty = false := by
    rw [← List.isEmpty_map (f := String.toList), toList_renderTargets]
    rfl
  rw [hcons]
  change ("\x7b " ++ commaSeparated (renderTargets (property :: properties)) ++ " \x7d").toList = _
  rw [String.toList_append, String.toList_append, toList_commaSeparated, toList_renderTargets]
  rfl

theorem text_rest (target : Pattern) (span : Span) :
    (rest target span).render.toList = ['.', '.', '.'] ++ target.render.toList :=
  String.toList_append

theorem text_withDefault (target : Pattern) (value : Expr) (span : Span) :
    (withDefault target value span).render.toList =
      target.render.toList ++ ' ' :: '=' :: ' ' :: value.render.toList := by
  change (target.render ++ " = " ++ value.render).toList = _
  simp

end Pattern

end EventLoop.Script
