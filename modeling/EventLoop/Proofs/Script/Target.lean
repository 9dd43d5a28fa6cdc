import EventLoop.Proofs.Script.Binding
import EventLoop.Proofs.Script.Legible

/-!
# Reading binding patterns back

A plain pattern is read back wherever it stands, but for holes at the ends of arrays
(`Pattern.IsPlain.legible`).  The rules for the parts of a pattern follow its constructors: a target
is a name, an array or an object; an element is a target, perhaps with a default value, or takes up
the rest; and a property is an element behind its key, or stands for its key.

An array of no elements is read like an array whose only slot is empty, because both have
the text `[]`.
-/

namespace EventLoop.Script

open Peg

variable {map : LineMap} {place middle after : Cursor}

/-! ## Parts of patterns -/

/-- A part of a rule stands for a pattern, but for its spans. -/
def Part.Binds (r : Rule) (p : Pattern) (part : Part) : Prop :=
  part.rule = r ∧ ∃ value, part.meaning = .pattern value ∧ value.shape = p

/-- A part stands for a slot of an array, but for spans. -/
def Part.Fills (slot : Option Pattern) (part : Part) : Prop :=
  ∃ value, part.meaning = .slot value ∧ value.map Pattern.shape = slot

/-- A part stands for a property of an object, but for spans. -/
def Part.Assigns (key : String) (p : Pattern) (part : Part) : Prop :=
  ∃ value, part.meaning = .patternProperty key value ∧ value.shape = p

/-- A part stands for an expression, but for its spans. -/
def Part.Yields (e : Expr) (part : Part) : Prop :=
  ∃ value, part.meaning = .expr value ∧ value.shape = e.shape

/-- A part is a name. -/
def Part.Names (name : String) (part : Part) : Prop :=
  part.rule = .identifier ∧ part.meaning = .token ∧ part.string = name

namespace Pattern

/-- What ends a slot of an array or a property of an object. -/
def slotEnds : List Start :=
  [.text [','], .text [']'], .text ['\x7d']]

/-- An equals sign before a space. -/
def equalsSign : Start :=
  .text ['=', ' ']

/-- Starts of names, arrays and objects. -/
def targetStarts : List Start :=
  nameStarts ++ [.text ['['], .text ['\x7b']]

/-- The rules for targets, in the order in which they are tried. -/
def targets : List Rule :=
  [.arrayPattern, .objectPattern, .identifier]

/-! ## Names, default values and rests -/

/-- A name is read as such. -/
theorem reads_name {name : String} (h : IsAccepted name)
    (hdrop : place.drop? name.toList = some after) (hword : startsInName after.rest = false) :
    PartRead map (.rule .identifier) (Part.Names name) place after := by
  refine ⟨after, _, _, matches_accepted h hdrop hword, rfl, ofTree_token place after rfl, rfl, rfl,
    ?_⟩
  have htext : Part.string ⟨.identifier, place, after, map.span place.offset after.offset, .token⟩ =
      String.ofList name.toList := string_eq hdrop
  rw [htext, String.ofList_toList]

/-- A name is read as a target. -/
theorem reads_ident {name : String} (h : IsAccepted name)
    (hdrop : place.drop? name.toList = some after) (hword : startsInName after.rest = false) :
    PartRead map (.rule .bindingTarget) (Part.Binds .bindingTarget (.ident name .zero))
      place after := by
  obtain ⟨start, hstart, hat⟩ := h.start hdrop hword
  have hrefuses : ∀ start ∈ nameStarts, ∀ other ∈ targets.takeWhile (· ≠ .identifier),
      start.refuses (.rule other) = true := by
    decide
  have hread : PartRead map (.rule .identifier) (Part.Names name) place after :=
    reads_name h hdrop hword
  obtain ⟨stop, tree, part, hmatch, hstop, hpart, hrule, hmeaning, hname⟩ := hread
  have hchoice : Matches grammar .spaced (body .bindingTarget) place ⟨stop, [tree]⟩ :=
    hat.choose targets (by decide) (hrefuses start hstart) hmatch
  refine .of_body rfl hchoice hstop (ofTrees_cons hpart rfl) fun whole => ?_
  obtain ⟨rule, first, last, span, meaning⟩ := part
  obtain rfl : rule = .identifier := hrule
  refine ⟨_, rfl, rfl, _, rfl, ?_⟩
  rw [Part.identPattern, hname]
  rfl

/-- What starts an array or an object is read as a target. -/
theorem reads_brackets {r : Rule} {p : Pattern} (hrule : r = .arrayPattern ∨ r = .objectPattern)
    {start : Start} (hat : start.At place)
    (hrefuses : ∀ other ∈ targets.takeWhile (· ≠ r), start.refuses (.rule other) = true)
    (h : PartRead map (.rule r) (Part.Binds r p) place after) :
    PartRead map (.rule .bindingTarget) (Part.Binds .bindingTarget p) place after := by
  obtain ⟨stop, tree, part, hmatch, hstop, hpart, hpartRule, value, hmeaning, hvalue⟩ := h
  have hmem : r ∈ targets := by
    rcases hrule with rfl | rfl <;> decide
  have hchoice : Matches grammar .spaced (body .bindingTarget) place ⟨stop, [tree]⟩ :=
    hat.choose targets hmem hrefuses hmatch
  refine .of_body rfl hchoice hstop (ofTrees_cons hpart rfl) fun whole =>
    ⟨.pattern value, ?_, rfl, value, rfl, hvalue⟩
  obtain ⟨rule, first, last, span, meaning⟩ := part
  obtain rfl : rule = r := hpartRule
  obtain rfl : meaning = .pattern value := hmeaning
  rcases hrule with rfl | rfl <;> rfl

/-- A value behind an equals sign is read. -/
theorem reads_value {value : Expr} (h : value.IsGrouped) (hsequence : value.isSequence = false)
    (hdrop : place.drop? (' ' :: '=' :: ' ' :: value.render.toList) = some after)
    (hfollows : Follows closers after) :
    PartRead map (.seq "=" (.rule .assignExpr)) (Part.Yields value) (skipLayout place) after := by
  have hsplit : place.drop? ([' ', '=', ' '] ++ value.render.toList) = some after := hdrop
  obtain ⟨start, hsign, hvalue⟩ := Cursor.drop?_append_eq_some hsplit
  have hstart := (h.start hvalue hfollows.word).settled
  obtain ⟨stop, rest, hsymbol, -, hstop⟩ := @operator_between ['='] rfl _ _ hsign hstart
  rw [← Expr.sided_false, Expr.sided_eq_item hsequence] at hvalue
  have hlegible : Script.Legible map value := h.legible
  obtain ⟨last, children, hmatch, hlast, part, found, hpart, -, hmeaning, hfound⟩ :=
    hlegible.readable _ _ hvalue hfollows
  exact ⟨last, _, part, matches_seq (.text hsymbol) hstop hmatch, hlast, hpart, found, hmeaning,
    hfound⟩

/-- A target is read as an element without a default value. -/
theorem reads_element {p : Pattern}
    (h : PartRead map (.rule .bindingTarget) (Part.Binds .bindingTarget p) place after)
    (hfollows : Follows slotEnds after) :
    PartRead map (.rule .bindingElement) (Part.Binds .bindingElement p) place after := by
  obtain ⟨stop, tree, part, hmatch, hstop, hpart, hrule, value, hmeaning, hvalue⟩ := h
  have hbody : Matches grammar .spaced (body .bindingElement) place ⟨skipLayout after, [tree]⟩ :=
    matches_seq hmatch hstop (.absent (.seqRefused (hfollows.refused (by decide))))
  refine .of_body rfl hbody (skipLayout_skipLayout after) (ofTrees_cons hpart rfl) fun whole =>
    ⟨.pattern value, ?_, rfl, value, rfl, hvalue⟩
  unfold assemble assembleStmt? assembleExpr? assemblePattern?
  dsimp only
  obtain ⟨rule, first, last, span, meaning⟩ := part
  obtain rfl : meaning = .pattern value := hmeaning
  rfl

/-- A target is read as an element with the default value that stands behind it. -/
theorem reads_elementDefault {p : Pattern} {value : Expr}
    (h : PartRead map (.rule .bindingTarget) (Part.Binds .bindingTarget p) place middle)
    (hvalue : PartRead map (.seq "=" (.rule .assignExpr)) (Part.Yields value) (skipLayout middle)
      after) :
    PartRead map (.rule .bindingElement)
      (Part.Binds .bindingElement (.withDefault p value.shape .zero)) place after := by
  obtain ⟨stop, tree, part, hmatch, hstop, hpart, -, target, hmeaning, htarget⟩ := h
  obtain ⟨last, valueTree, valuePart, hvalueMatch, hlast, hvaluePart, found, hfound, hshape⟩ :=
    hvalue
  have hbody : Matches grammar .spaced (body .bindingElement) place ⟨last, [tree, valueTree]⟩ :=
    matches_seq hmatch hstop (.present hvalueMatch)
  refine .of_body rfl hbody hlast (ofTrees_cons hpart (ofTrees_cons hvaluePart rfl)) fun whole =>
    ⟨.pattern (.withDefault target found whole.span), ?_, rfl, _, rfl, ?_⟩
  · obtain ⟨_, _, _, _, meaning⟩ := part
    obtain rfl : meaning = .pattern target := hmeaning
    obtain ⟨_, _, _, _, meaning⟩ := valuePart
    obtain rfl : meaning = .expr found := hfound
    rfl
  · rw [shape_withDefault, htarget, hshape]

/-- A target is read as what takes up the rest. -/
theorem reads_rest {p : Pattern} (hdrop : place.drop? ['.', '.', '.'] = some middle)
    (hsettled : skipLayout middle = middle)
    (h : PartRead map (.rule .bindingTarget) (Part.Binds .bindingTarget p) middle after) :
    PartRead map (.rule .restElement) (Part.Binds .restElement (.rest p .zero)) place after := by
  obtain ⟨stop, tree, part, hmatch, hstop, hpart, -, target, hmeaning, htarget⟩ := h
  have hbody : Matches grammar .spaced (body .restElement) place ⟨stop, [tree]⟩ :=
    matches_seq (.text hdrop) hsettled hmatch
  refine .of_body rfl hbody hstop (ofTrees_cons hpart rfl) fun whole =>
    ⟨.pattern (.rest target whole.span), ?_, rfl, _, rfl, ?_⟩
  · obtain ⟨_, _, _, _, meaning⟩ := part
    obtain rfl : meaning = .pattern target := hmeaning
    rfl
  · rw [shape_rest, htarget]

/-! ## What is read back -/

/-- The rule that reads a pattern as an element. -/
def partRule (p : Pattern) : Rule :=
  if p.isRest then .restElement else .bindingElement

variable (map) in
/-- Wherever a plain pattern stands, it is read back, but for holes at the ends of arrays. -/
structure Legible (p : Pattern) : Prop where
  plain : p.IsPlain
  /-- As what a declarator or a default value is for. -/
  target : p.isTarget = true → ∀ {place after : Cursor}, place.drop? p.render.toList = some after →
    startsInName after.rest = false →
    PartRead map (.rule .bindingTarget) (Part.Binds .bindingTarget p.curtailed) place after
  /-- As a slot of an array, or behind the key of a property. -/
  element : ∀ {place after : Cursor}, place.drop? p.render.toList = some after →
    Follows slotEnds after →
    PartRead map (.rule p.partRule) (Part.Binds p.partRule p.curtailed) place after

variable {p : Pattern}

theorem isRest_of_isTarget (h : p.isTarget = true) : p.isRest = false := by
  cases p <;> first | rfl | contradiction

theorem array_start {elements : List (Option Pattern)} {span : Span}
    (hdrop : place.drop? (array elements span).render.toList = some after) :
    (Start.text ['[']).At place := by
  rw [text_array] at hdrop
  exact Start.at_text rfl hdrop

theorem object_start {properties : List (String × Pattern)} {span : Span}
    (hdrop : place.drop? (object properties span).render.toList = some after) :
    (Start.text ['\x7b']).At place := by
  cases properties with
  | nil =>
      rw [text_object_nil] at hdrop
      exact Start.at_text rfl hdrop
  | cons property properties =>
      rw [text_object] at hdrop
      exact Start.at_text rfl hdrop

/-- How a target starts. -/
theorem IsPlain.target_start (h : p.IsPlain) (htarget : p.isTarget = true)
    (hdrop : place.drop? p.render.toList = some after) (hword : startsInName after.rest = false) :
    ∃ start ∈ targetStarts, start.At place := by
  cases h with
  | ident hname span =>
      obtain ⟨start, hstart, hat⟩ := hname.start hdrop hword
      exact ⟨start, List.mem_append_left _ hstart, hat⟩
  | array => exact ⟨.text ['['], by decide, array_start hdrop⟩
  | object => exact ⟨.text ['\x7b'], by decide, object_start hdrop⟩
  | rest | withDefault => contradiction

/-- How a plain pattern starts. -/
theorem IsPlain.start (h : p.IsPlain) (hdrop : place.drop? p.render.toList = some after)
    (hfollows : Follows slotEnds after) :
    (p.isRest = true ∧ (Start.text ['.', '.', '.']).At place) ∨
      p.isRest = false ∧ ∃ start ∈ targetStarts, start.At place := by
  cases h with
  | rest _ _ span =>
      rw [text_rest] at hdrop
      exact .inl ⟨rfl, Start.at_text rfl hdrop⟩
  | withDefault h htarget _ _ span =>
      rw [text_withDefault] at hdrop
      obtain ⟨middle, htext, hvalue⟩ := Cursor.drop?_append_eq_some hdrop
      exact .inr ⟨rfl, h.target_start htarget htext (startsInName_of_drop? hvalue)⟩
  | ident hname span =>
      exact .inr ⟨rfl, (IsPlain.ident hname span).target_start rfl hdrop hfollows.word⟩
  | array helements span =>
      exact .inr ⟨rfl, (IsPlain.array helements span).target_start rfl hdrop hfollows.word⟩
  | object h hkey hrest span =>
      exact .inr ⟨rfl, (IsPlain.object h hkey hrest span).target_start rfl hdrop hfollows.word⟩

theorem IsPlain.settled (h : p.IsPlain) (hdrop : place.drop? p.render.toList = some after)
    (hfollows : Follows slotEnds after) : skipLayout place = place := by
  rcases h.start hdrop hfollows with ⟨-, hat⟩ | ⟨-, start, -, hat⟩
  · exact hat.settled
  · exact hat.settled

namespace Legible

/-- A target that is read back is legible. -/
theorem of_target (h : p.IsPlain) (htarget : p.isTarget = true)
    (hread : ∀ {place after : Cursor}, place.drop? p.render.toList = some after →
      startsInName after.rest = false →
      PartRead map (.rule .bindingTarget) (Part.Binds .bindingTarget p.curtailed) place after) :
    Legible map p where
  plain := h
  target _ := hread
  element hdrop hfollows := by
    rw [partRule, isRest_of_isTarget htarget]
    exact reads_element (hread hdrop hfollows.word) hfollows

/-- An element is read where elements and rests are. -/
theorem choice (h : Legible map p) (hdrop : place.drop? p.render.toList = some after)
    (hfollows : Follows slotEnds after) :
    PartRead map (oneOf [Rule.restElement, Rule.bindingElement]) (Part.Binds p.partRule p.curtailed)
      place after := by
  have hread := h.element hdrop hfollows
  rcases h.plain.start hdrop hfollows with ⟨hrest, -⟩ | ⟨hrest, start, hstart, hat⟩
  · rw [partRule, hrest] at hread ⊢
    exact hread.choice fun hmatch => .altFirst _ hmatch
  · have hrefuses : ∀ start ∈ targetStarts, start.refuses (.rule .restElement) = true := by decide
    rw [partRule, hrest] at hread ⊢
    exact hread.choice fun hmatch => .altSecond (hat.refused (hrefuses start hstart)) hmatch

end Legible

/-! ## Arrays -/

/-- A slot of an array is read. -/
theorem reads_slot {slot : Option Pattern}
    (h : ∀ element, slot = some element → Legible map element) :
    ItemRead map (.rule .patternSlot) [.text [']']] slotText
      (fun slot => Part.Fills (slot.map curtailed)) slot := by
  intro place after hdrop hfollows
  cases slot with
  | none =>
      obtain rfl := Option.some.inj hdrop
      have hnone : Derives grammar .spaced (oneOf [Rule.restElement, Rule.bindingElement])
          (skipLayout place) none := hfollows.refused (by decide)
      have hbody : Matches grammar .spaced (body .patternSlot) (skipLayout place)
          ⟨skipLayout place, []⟩ := .absent hnone
      exact .of_body rfl hbody (skipLayout_skipLayout place) rfl fun whole =>
        ⟨.slot none, rfl, none, rfl, rfl⟩
  | some element =>
      have helement := h element rfl
      have hends : Follows slotEnds after := hfollows.mono (by decide)
      obtain ⟨stop, tree, part, hmatch, hstop, hpart, -, value, hmeaning, hvalue⟩ :=
        helement.choice hdrop hends
      have hbody : Matches grammar .spaced (body .patternSlot) place ⟨stop, [tree]⟩ :=
        .present hmatch
      rw [helement.plain.settled hdrop hends]
      refine .of_body rfl hbody hstop (ofTrees_cons hpart rfl) fun whole =>
        ⟨.slot (some value), ?_, some value, rfl, congrArg some hvalue⟩
      obtain ⟨_, _, _, _, meaning⟩ := part
      obtain rfl : meaning = .pattern value := hmeaning
      rfl

theorem elementsOf_map (g : Pattern → Pattern) (slots : List (Option Pattern)) :
    elementsOf (slots.map (Option.map g)) = (elementsOf slots).map (Option.map g) := by
  by_cases hhole : slots.getLast? = some none
  · rw [elementsOf, elementsOf, List.getLast?_map, hhole]
    exact (List.map_dropLast ..).symm
  · have hfilled : (slots.map (Option.map g)).getLast? ≠ some none := by
      rw [List.getLast?_map]
      cases hlast : slots.getLast? with
      | none => simp
      | some last =>
          cases last with
          | none => exact absurd hlast hhole
          | some element => simp
    rw [elementsOf_of_getLast? hhole, elementsOf_of_getLast? hfilled]

/-- The slots of an array are read; there is an empty one in an array of no elements. -/
theorem exists_slots {elements : List (Option Pattern)}
    (h : ∀ element, some element ∈ elements → Legible map element)
    (hdrop : place.drop? (joined (elements.map slotText)) = some after)
    (hclose : Follows [.text [']']] after) :
    ∃ slots, SeriesRead map (separated "," (.rule .patternSlot))
        (fun slot => Part.Fills (slot.map curtailed)) slots (skipLayout place) after ∧
      elementsOf (slots.map (Option.map curtailed)) =
        elementsOf (elements.map (Option.map curtailed)) := by
  have hread {slots : List (Option Pattern)}
      (hslots : ∀ element, some element ∈ slots → Legible map element) :
      ∀ slot ∈ slots, ItemRead map (.rule .patternSlot) [.text [']']] slotText
        (fun slot => Part.Fills (slot.map curtailed)) slot :=
    fun slot hslot => reads_slot fun element helement => hslots element (helement ▸ hslot)
  cases elements with
  | nil =>
      refine ⟨[none], matches_joined (by decide) (hread ?_) hdrop hclose, rfl⟩
      exact fun element helement => absurd (List.mem_singleton.1 helement) nofun
  | cons slot elements =>
      exact ⟨slot :: elements, matches_joined (by decide) (hread h) hdrop hclose, rfl⟩

/-- An array is read. -/
theorem reads_array {elements : List (Option Pattern)}
    (h : ∀ element, some element ∈ elements → Legible map element) (span : Span)
    (hdrop : place.drop? (array elements span).render.toList = some after) :
    PartRead map (.rule .arrayPattern) (Part.Binds .arrayPattern (array elements span).curtailed)
      place after := by
  rw [text_array] at hdrop
  obtain ⟨offset, rest, rfl, hbehind⟩ := Cursor.drop?_cons_eq_some hdrop
  obtain ⟨middle, hslots, hclose⟩ := Cursor.drop?_append_eq_some hbehind
  have hend : middle.drop? ([']'] ++ []) = some after := hclose
  have hfollows : Follows [.text [']']] middle := .of_text [']'] List.mem_cons_self rfl rfl hend
  have hsettled := (Start.at_text (by rfl : isSolid [']'] = true) hend).settled
  obtain ⟨slots, ⟨stop, trees, parts, hmatch, hstop, hparts, hall⟩, helements⟩ :=
    exists_slots h hslots hfollows
  have hopen : Matches grammar .spaced "[" ⟨offset, '[' :: rest⟩
      ⟨⟨offset + '['.utf8Size, rest⟩, []⟩ := .text rfl
  have hbody : Matches grammar .spaced (body .arrayPattern) ⟨offset, '[' :: rest⟩
      ⟨after, trees ++ []⟩ :=
    matches_seq hopen rfl (matches_seq hmatch (hstop.trans hsettled) (.text hclose))
  rw [List.append_nil] at hbody
  refine .of_body rfl hbody rfl hparts fun whole => ⟨_, rfl, rfl, _, rfl, ?_⟩
  rw [shape_array, curtailed_array, ← elementsOf_map, ← helements]
  refine congrArg (fun slots => array (elementsOf slots) .zero)
    (map_filterMap_of_forall₂ (hall.imp ?_))
  rintro slot part ⟨value, hmeaning, hvalue⟩
  exact ⟨value, by rw [hmeaning], hvalue⟩

/-! ## Objects -/

/-- What stands behind the name of a property that stands for its key. -/
def nameEnds : List Start :=
  equalsSign :: slotEnds

/-- Starts of keys, which may be keywords. -/
theorem key_start {key : String} (h : IsName key.toList)
    (hdrop : place.drop? key.toList = some after) (hword : startsInName after.rest = false) :
    ∃ start : Start, start.At place ∧ start.refuses (.rule .restElement) = true := by
  by_cases hkeyword : key ∈ keywords
  · have hrefuses :
        ∀ word ∈ keywords, (Start.keyword word).refuses (.rule .restElement) = true := by
      decide
    exact ⟨.keyword key, Start.at_keyword h hdrop hword, hrefuses key hkeyword⟩
  · exact ⟨.name, Start.at_name ⟨h, hkeyword⟩ hdrop hword, by decide⟩

/-- A name is read as a key. -/
theorem reads_key {key : String} (h : IsName key.toList)
    (hdrop : place.drop? key.toList = some after) (hword : startsInName after.rest = false) :
    PartRead map (.rule .propertyKey) (fun part => part.meaning = .key key) place after := by
  have hchoice : Matches grammar .spaced (body .propertyKey) place
      ⟨after, [.node .identifierName place after []]⟩ :=
    .altFirst _ (matches_identifierName h hdrop hword)
  refine .of_body rfl hchoice rfl (ofTrees_cons (ofTree_token place after rfl) rfl) fun whole =>
    ⟨_, rfl, ?_⟩
  have htext : Part.string ⟨.identifierName, place, after, map.span place.offset after.offset,
      .token⟩ = String.ofList key.toList := string_eq hdrop
  exact congrArg Meaning.key (htext.trans String.ofList_toList)

/-- Where no colon follows a name, it is no key of a pair. -/
theorem refused_pair {name : String} (h : IsName name.toList)
    (hdrop : place.drop? name.toList = some after) (hfollows : Follows nameEnds after) :
    Derives grammar .spaced (.rule .patternPair) place none := by
  have hkey : Matches grammar .spaced (body .propertyKey) place _ :=
    .altFirst _ (matches_identifierName h hdrop hfollows.word)
  have hcolon : Derives grammar .spaced ":" (skipLayout after) none := hfollows.refused (by decide)
  exact .rule_none (.seq_none (matches_rule .spaced .propertyKey nofun nofun hkey)
    (.seqRefused hcolon))

/-- An element behind its key is read. -/
theorem reads_pair {key : String} (hkey : IsName key.toList) (h : Legible map p)
    (hrest : p.isRest = false)
    (hdrop : place.drop? (key.toList ++ ':' :: ' ' :: p.render.toList) = some after)
    (hfollows : Follows slotEnds after) :
    PartRead map (.rule .patternPair) (Part.Assigns key p.curtailed) place after := by
  obtain ⟨middle, hkeyText, hbehind⟩ := Cursor.drop?_append_eq_some hdrop
  have hat : (Start.text [':']).At middle := Start.at_text rfl hbehind
  have hread :
      PartRead map (.rule .propertyKey) (fun part => part.meaning = .key key) place middle :=
    reads_key hkey hkeyText (startsInName_of_drop? hbehind)
  obtain ⟨stop, tree, part, hmatch, hstop, hpart, hmeaning⟩ := hread
  obtain ⟨offset, _, rfl, hspace⟩ := Cursor.drop?_cons_eq_some hbehind
  obtain ⟨_, rest, heq, htarget⟩ := Cursor.drop?_cons_eq_some hspace
  obtain ⟨rfl, rfl⟩ := Cursor.mk.inj heq
  have hsettled := h.plain.settled htarget hfollows
  obtain ⟨last, element, elementPart, helement, hlast, helementPart, -, value, helementMeaning,
    hvalue⟩ := h.element htarget hfollows
  rw [partRule, hrest] at helement
  have hcolon : Matches grammar .spaced ":" ⟨offset, ':' :: ' ' :: rest⟩
      ⟨⟨offset + ':'.utf8Size, ' ' :: rest⟩, []⟩ := .text rfl
  have hbody : Matches grammar .spaced (body .patternPair) place ⟨last, [tree, element]⟩ :=
    matches_seq hmatch (hstop.trans hat.settled)
      (matches_seq hcolon ((skipLayout_space _ rest).trans hsettled) helement)
  refine .of_body rfl hbody hlast (ofTrees_cons hpart (ofTrees_cons helementPart rfl)) fun whole =>
    ⟨.patternProperty key value, ?_, value, rfl, hvalue⟩
  unfold assemble assembleStmt? assembleExpr? assemblePattern? assemblePiece
  dsimp only
  rw [List.map_cons, List.map_cons, hmeaning, helementMeaning]
  rfl

/-- A part stands for a property that stands for its key, but for spans. -/
def Shortens (key : String) (q : Pattern) (part : Part) : Prop :=
  part.rule = .patternShorthand ∧
    ∃ value, part.meaning = .pattern value ∧ value.shape = q ∧ value.names.head? = some key

/-- A name is read as a property that stands for its key. -/
theorem reads_shorthand {name : String} (h : IsAccepted name)
    (hdrop : place.drop? name.toList = some after) (hfollows : Follows slotEnds after) :
    PartRead map (.rule .patternShorthand) (Shortens name (.ident name .zero)) place after := by
  have hread : PartRead map (.rule .identifier) (Part.Names name) place after :=
    reads_name h hdrop hfollows.word
  obtain ⟨stop, tree, part, hmatch, hstop, hpart, hrule, hmeaning, hname⟩ := hread
  have hbody : Matches grammar .spaced (body .patternShorthand) place ⟨skipLayout after, [tree]⟩ :=
    matches_seq hmatch hstop (.absent (.seqRefused (hfollows.refused (by decide))))
  refine .of_body rfl hbody (skipLayout_skipLayout after) (ofTrees_cons hpart rfl) fun whole =>
    ⟨.pattern part.identPattern, ?_, rfl, _, rfl, ?_, congrArg some hname⟩
  · obtain ⟨rule, _, _, _, meaning⟩ := part
    obtain rfl : rule = .identifier := hrule
    obtain rfl : meaning = .token := hmeaning
    rfl
  · rw [Part.identPattern, hname]
    rfl

/-- A name with a default value is read as a property that stands for its key. -/
theorem reads_shorthandDefault {name : String} {value : Expr} (h : IsAccepted name)
    (hdrop : place.drop? name.toList = some middle) (hword : startsInName middle.rest = false)
    (hvalue : PartRead map (.seq "=" (.rule .assignExpr)) (Part.Yields value) (skipLayout middle)
      after) :
    PartRead map (.rule .patternShorthand)
      (Shortens name (.withDefault (.ident name .zero) value.shape .zero)) place after := by
  have hread : PartRead map (.rule .identifier) (Part.Names name) place middle :=
    reads_name h hdrop hword
  obtain ⟨stop, tree, part, hmatch, hstop, hpart, hrule, hmeaning, hname⟩ := hread
  obtain ⟨last, valueTree, valuePart, hvalueMatch, hlast, hvaluePart, found, hfound, hshape⟩ :=
    hvalue
  have hbody : Matches grammar .spaced (body .patternShorthand) place ⟨last, [tree, valueTree]⟩ :=
    matches_seq hmatch hstop (.present hvalueMatch)
  refine .of_body rfl hbody hlast (ofTrees_cons hpart (ofTrees_cons hvaluePart rfl)) fun whole =>
    ⟨.pattern (.withDefault part.identPattern found whole.span), ?_, rfl, _, rfl, ?_,
      congrArg some hname⟩
  · obtain ⟨rule, _, _, _, meaning⟩ := part
    obtain rfl : rule = .identifier := hrule
    obtain rfl : meaning = .token := hmeaning
    obtain ⟨_, _, _, _, meaning⟩ := valuePart
    obtain rfl : meaning = .expr found := hfound
    rfl
  · rw [shape_withDefault, hshape, Part.identPattern, hname]
    rfl

/-- A property that is read without its key. -/
theorem reads_prop_of_shorthand {name : String} {q : Pattern} (hname : IsName name.toList)
    (hdrop : place.drop? name.toList = some middle) (hfollows : Follows nameEnds middle)
    (h : PartRead map (.rule .patternShorthand) (Shortens name q) place after) :
    PartRead map (.rule .patternProp) (Part.Assigns name q) place after := by
  obtain ⟨start, hat, hrest⟩ := key_start hname hdrop hfollows.word
  obtain ⟨stop, tree, part, hmatch, hstop, hpart, hrule, value, hmeaning, hvalue, hnames⟩ := h
  have hbody : Matches grammar .spaced (body .patternProp) place ⟨stop, [tree]⟩ :=
    .altSecond (hat.refused hrest) (.altSecond (refused_pair hname hdrop hfollows) hmatch)
  refine .of_body rfl hbody hstop (ofTrees_cons hpart rfl) fun whole =>
    ⟨.patternProperty name value, ?_, value, rfl, hvalue⟩
  obtain ⟨rule, _, _, _, meaning⟩ := part
  obtain rfl : rule = .patternShorthand := hrule
  obtain rfl : meaning = .pattern value := hmeaning
  unfold assemble assembleStmt? assembleExpr? assemblePattern? assemblePiece
  dsimp only
  rw [hnames]
  rfl

/-- A property that is read behind its key. -/
theorem reads_prop_of_pair {key : String} {q : Pattern} (hkey : IsName key.toList)
    (hdrop : place.drop? key.toList = some middle) (hword : startsInName middle.rest = false)
    (h : PartRead map (.rule .patternPair) (Part.Assigns key q) place after) :
    PartRead map (.rule .patternProp) (Part.Assigns key q) place after := by
  obtain ⟨start, hat, hrest⟩ := key_start hkey hdrop hword
  obtain ⟨stop, tree, part, hmatch, hstop, hpart, value, hmeaning, hvalue⟩ := h
  have hbody : Matches grammar .spaced (body .patternProp) place ⟨stop, [tree]⟩ :=
    .altSecond (hat.refused hrest) (.altFirst _ hmatch)
  refine .of_body rfl hbody hstop (ofTrees_cons hpart rfl) fun whole =>
    ⟨.patternProperty key value, ?_, value, rfl, hvalue⟩
  obtain ⟨rule, _, _, _, meaning⟩ := part
  obtain rfl : meaning = .patternProperty key value := hmeaning
  cases rule <;> rfl

/-- What takes up the rest is read as a property. -/
theorem reads_prop_of_rest {q : Pattern}
    (h : PartRead map (.rule .restElement) (Part.Binds .restElement q) place after) :
    PartRead map (.rule .patternProp) (Part.Assigns "..." q) place after := by
  obtain ⟨stop, tree, part, hmatch, hstop, hpart, hrule, value, hmeaning, hvalue⟩ := h
  have hbody : Matches grammar .spaced (body .patternProp) place ⟨stop, [tree]⟩ :=
    .altFirst _ hmatch
  refine .of_body rfl hbody hstop (ofTrees_cons hpart rfl) fun whole =>
    ⟨.patternProperty "..." value, ?_, value, rfl, hvalue⟩
  obtain ⟨rule, _, _, _, meaning⟩ := part
  obtain rfl : rule = .restElement := hrule
  obtain rfl : meaning = .pattern value := hmeaning
  rfl

/-- A property whose text has no key of its own is read. -/
theorem reads_prop_standsFor {key : String} (h : Legible map p) (hstands : p.standsFor key = true)
    (hrest : p.isRest = true → key = "...") (hdrop : place.drop? p.render.toList = some after)
    (hfollows : Follows slotEnds after) :
    PartRead map (.rule .patternProp) (Part.Assigns key p.curtailed) place after := by
  have hread := h.element hdrop hfollows
  cases h.plain with
  | @ident name hname span =>
      obtain rfl : name = key := of_decide_eq_true hstands
      exact reads_prop_of_shorthand hname.1 hdrop (hfollows.mono (List.subset_cons_self _ _))
        (reads_shorthand hname hdrop hfollows)
  | array | object => contradiction
  | rest _ _ span =>
      obtain rfl := hrest rfl
      exact reads_prop_of_rest hread
  | @withDefault target value htarget _ hvalue hsequence span =>
      have hkey : target.name? = some key := of_decide_eq_true hstands
      cases htarget with
      | @ident name hname inner =>
          obtain rfl : name = key := Option.some.inj hkey
          rw [text_withDefault] at hdrop
          obtain ⟨middle, htext, hbehind⟩ := Cursor.drop?_append_eq_some hdrop
          have hsign : Follows nameEnds middle :=
            @Follows.of_operator _ _ ['='] List.mem_cons_self rfl _ _ hbehind
          exact reads_prop_of_shorthand hname.1 htext hsign
            (reads_shorthandDefault hname htext hsign.word
              (reads_value hvalue hsequence hbehind (hfollows.mono (by decide))))
      | array | object | rest | withDefault => contradiction

/-- A property is read. -/
theorem reads_property {property : String × Pattern} (h : Legible map property.2)
    (hkey : property.2.isRest = false → IsName property.1.toList)
    (hrest : property.2.isRest = true → property.1 = "...") :
    ItemRead map (.rule .patternProp) [.text ['\x7d']] propertyText
      (fun property => Part.Assigns property.1 property.2.curtailed) property := by
  intro place after hdrop hfollows
  obtain ⟨key, target⟩ := property
  have hends : Follows slotEnds after := hfollows.mono (by decide)
  rw [propertyText] at hdrop
  split at hdrop
  next hstands =>
    rw [h.plain.settled hdrop hends]
    exact reads_prop_standsFor h hstands hrest hdrop hends
  next hstands =>
    have hfree : target.isRest = false := by
      cases target <;> first | rfl | exact absurd rfl hstands
    obtain ⟨middle, htext, hbehind⟩ := Cursor.drop?_append_eq_some hdrop
    have hword := startsInName_of_drop? hbehind
    obtain ⟨start, hat, -⟩ := key_start (hkey hfree) htext hword
    rw [hat.settled]
    exact reads_prop_of_pair (hkey hfree) htext hword (reads_pair (hkey hfree) h hfree hdrop hends)

/-- A brace behind a space ends the properties of an object. -/
theorem follows_brace (hdrop : place.drop? [' ', '\x7d'] = some after) :
    Follows [.text ['\x7d']] place ∧
      Matches grammar .spaced "\x7d" (skipLayout place) ⟨after, []⟩ := by
  obtain ⟨offset, _, rfl, hbrace⟩ := Cursor.drop?_cons_eq_some hdrop
  have hat : (Start.text ['\x7d']).At _ :=
    Start.at_text rfl (hbrace : Cursor.drop? (['\x7d'] ++ []) _ = _)
  have hskip := (skipLayout_space offset _).trans hat.settled
  refine ⟨⟨rfl, _, List.mem_singleton_self _, hskip.symm ▸ hat⟩, ?_⟩
  rw [hskip]
  exact .text hbrace

/-- An object without properties is read. -/
theorem reads_object_nil (span : Span)
    (hdrop : place.drop? (object [] span).render.toList = some after) :
    PartRead map (.rule .objectPattern) (Part.Binds .objectPattern (.object [] .zero))
      place after := by
  rw [text_object_nil] at hdrop
  obtain ⟨offset, rest, rfl, hclose⟩ := Cursor.drop?_cons_eq_some hdrop
  have hat : (Start.text ['\x7d']).At _ :=
    Start.at_text rfl (hclose : Cursor.drop? (['\x7d'] ++ []) _ = _)
  have hopen : Matches grammar .spaced "\x7b" ⟨offset, '\x7b' :: rest⟩
      ⟨⟨offset + '\x7b'.utf8Size, rest⟩, []⟩ := .text rfl
  have hbody : Matches grammar .spaced (body .objectPattern) ⟨offset, '\x7b' :: rest⟩
      ⟨after, []⟩ :=
    matches_seq hopen hat.settled
      (matches_seq (.absent (hat.refused (by decide))) hat.settled (.text hclose))
  exact .of_body rfl hbody rfl rfl fun whole => ⟨_, rfl, rfl, _, rfl, rfl⟩

/-- An object is read. -/
theorem reads_object {properties : List (String × Pattern)}
    (h : ∀ property ∈ properties, Legible map property.2)
    (hkey : ∀ property ∈ properties, property.2.isRest = false → IsName property.1.toList)
    (hrest : ∀ property ∈ properties, property.2.isRest = true → property.1 = "...") (span : Span)
    (hdrop : place.drop? (object properties span).render.toList = some after) :
    PartRead map (.rule .objectPattern)
      (Part.Binds .objectPattern (object properties span).curtailed) place after := by
  cases properties with
  | nil =>
      rw [curtailed_object]
      exact reads_object_nil span hdrop
  | cons property properties =>
      rw [text_object] at hdrop
      obtain ⟨offset, _, rfl, hspace⟩ := Cursor.drop?_cons_eq_some hdrop
      obtain ⟨_, rest, heq, hbehind⟩ := Cursor.drop?_cons_eq_some hspace
      obtain ⟨rfl, rfl⟩ := Cursor.mk.inj heq
      obtain ⟨middle, hproperties, hclose⟩ := Cursor.drop?_append_eq_some hbehind
      obtain ⟨hfollows, hbrace⟩ := follows_brace hclose
      obtain ⟨stop, trees, parts, hmatch, hstop, hparts, hall⟩ :=
        matches_joined (by decide) (fun other hother =>
          reads_property (h other hother) (hkey other hother) (hrest other hother))
          hproperties hfollows
      have hopen : Matches grammar .spaced "\x7b" ⟨offset, '\x7b' :: ' ' :: rest⟩
          ⟨⟨offset + '\x7b'.utf8Size, ' ' :: rest⟩, []⟩ := .text rfl
      have hcomma : Derives grammar .spaced "," (skipLayout middle) none :=
        hfollows.refused (by decide)
      have hbody : Matches grammar .spaced (body .objectPattern) ⟨offset, '\x7b' :: ' ' :: rest⟩
          ⟨after, trees ++ [] ++ []⟩ :=
        matches_seq hopen (skipLayout_space _ rest)
          (matches_seq (.present (matches_seq hmatch hstop (.absent hcomma)))
            (skipLayout_skipLayout middle) hbrace)
      rw [List.append_nil, List.append_nil] at hbody
      refine .of_body rfl hbody rfl hparts fun whole => ⟨_, rfl, rfl, _, rfl, ?_⟩
      rw [shape_object, curtailed_object]
      refine congrArg (object · .zero) (map_filterMap_of_forall₂ (hall.imp ?_))
      rintro property part ⟨value, hmeaning, hvalue⟩
      exact ⟨(property.1, value), by rw [hmeaning], Prod.ext rfl hvalue⟩

/-! ## All plain patterns -/

/-- **Plain patterns are read back**, but for holes at the ends of arrays. -/
theorem IsPlain.legible (h : p.IsPlain) : Legible map p := by
  induction h with
  | ident hname span =>
      refine .of_target (.ident hname span) rfl fun hdrop hword => ?_
      exact reads_ident hname hdrop hword
  | array h span ih =>
      refine .of_target (.array h span) rfl fun hdrop _ => ?_
      exact reads_brackets (.inl rfl) (array_start hdrop) (by decide) (reads_array ih span hdrop)
  | object h hkey hrest span ih =>
      refine .of_target (.object h hkey hrest span) rfl fun hdrop _ => ?_
      exact reads_brackets (.inr rfl) (object_start hdrop) (by decide)
        (reads_object ih hkey hrest span hdrop)
  | rest h htarget span ih =>
      refine ⟨.rest h htarget span, fun hfalse => absurd hfalse Bool.false_ne_true,
        fun hdrop hfollows => ?_⟩
      rw [text_rest] at hdrop
      obtain ⟨middle, hdots, htext⟩ := Cursor.drop?_append_eq_some hdrop
      obtain ⟨start, -, hat⟩ := h.target_start htarget htext hfollows.word
      rw [curtailed_rest]
      exact reads_rest hdots hat.settled (ih.target htarget htext hfollows.word)
  | withDefault h htarget hvalue hsequence span ih =>
      refine ⟨.withDefault h htarget hvalue hsequence span,
        fun hfalse => absurd hfalse Bool.false_ne_true, fun hdrop hfollows => ?_⟩
      rw [text_withDefault] at hdrop
      obtain ⟨middle, htext, hbehind⟩ := Cursor.drop?_append_eq_some hdrop
      rw [curtailed_withDefault]
      exact reads_elementDefault (ih.target htarget htext (startsInName_of_drop? hbehind))
        (reads_value hvalue hsequence hbehind (hfollows.mono (by decide)))

end Pattern

end EventLoop.Script
