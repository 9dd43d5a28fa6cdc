import EventLoop.Proofs.Script.Ladder
import Mathlib.Data.List.Forall2

/-!
# Series

A series is a row of items with commas between.  If an expression of the grammar reads each item
as a part, and what ends the series does not start with a comma, then the series is read as a row of
parts, one for each item (`matches_joined`).

An item may have an empty text, like a hole among the elements of an array.  So items are
read from behind the layout before them.
-/

namespace EventLoop.Script

open Peg

variable (map : LineMap)

/-- An expression of the grammar reads a part between two places, perhaps with layout behind. -/
def PartRead (f : Peg.Expr Rule) (P : Part → Prop) (place after : Cursor) : Prop :=
  ∃ stop tree part, Matches grammar .spaced f place ⟨stop, [tree]⟩ ∧
    skipLayout stop = skipLayout after ∧ Part.ofTree map tree = .ok part ∧ P part

/-- An expression of the grammar reads one part for each item between two places. -/
def SeriesRead {α : Type} (f : Peg.Expr Rule) (P : α → Part → Prop) (items : List α)
    (place after : Cursor) : Prop :=
  ∃ stop trees parts, Matches grammar .spaced f place ⟨stop, trees⟩ ∧
    skipLayout stop = skipLayout after ∧ Part.ofTrees map trees = .ok parts ∧
    List.Forall₂ P items parts

variable {map} {place after : Cursor} {f : Peg.Expr Rule} {ends : List Start}

/-! ## Rules that read parts -/

/-- An expression reads what another one reads that it is a choice of. -/
theorem PartRead.choice {e : Peg.Expr Rule} {P : Part → Prop} (h : PartRead map f P place after)
    (hchoice : ∀ {result : Match Rule}, Matches grammar .spaced f place result →
      Matches grammar .spaced e place result) : PartRead map e P place after := by
  obtain ⟨stop, tree, part, hmatch, hread⟩ := h
  exact ⟨stop, tree, part, hchoice hmatch, hread⟩

/-- A rule reads a part with the meaning of the parts that its body matches. -/
theorem PartRead.of_body {r : Rule} (hkind : kind r = .plain) {stop : Cursor}
    {trees : List (Peg.Tree Rule)} (h : Matches grammar .spaced (body r) place ⟨stop, trees⟩)
    (hstop : skipLayout stop = skipLayout after) {parts : List Part}
    (hparts : Part.ofTrees map trees = .ok parts) {P : Part → Prop}
    (hmeaning : ∀ whole : Part, ∃ meaning, assemble r whole parts = .ok meaning ∧
      P ⟨r, place, stop, whole.span, meaning⟩) : PartRead map (.rule r) P place after := by
  obtain ⟨meaning, hassemble, hP⟩ :=
    hmeaning ⟨r, place, stop, map.span place.offset stop.offset, .token⟩
  have hmode : Matches grammar ((kind r).modeIn .spaced) (body r) place ⟨stop, trees⟩ := by
    rwa [hkind]
  exact ⟨stop, _, _, matches_rule .spaced r nofun (by rw [hkind]; nofun) hmode, hstop,
    ofTree_node hparts hassemble, hP⟩

/-- The values that are picked from the parts of a series are those of its items. -/
theorem map_filterMap_of_forall₂ {α β γ : Type} {pick : Part → Option β} {g : β → γ} {value : α → γ}
    {items : List α} {parts : List Part}
    (h : List.Forall₂ (fun item part => ∃ found, pick part = some found ∧ g found = value item)
      items parts) : (parts.filterMap pick).map g = items.map value := by
  induction h with
  | nil => rfl
  | cons hfirst _ ih =>
      obtain ⟨found, hpick, hfound⟩ := hfirst
      rw [List.filterMap_cons_some hpick, List.map_cons, List.map_cons, hfound, ih]

/-! ## Items -/

section Items

variable {α : Type} {text : α → List Char} {P : α → Part → Prop} {items : List α}

/-- What stands behind an item: a comma, or what ends the series. -/
theorem follows_commaed {texts : List (List Char)}
    (hdrop : place.drop? (commaed texts) = some after) (hend : Follows ends after) :
    Follows (.text [','] :: ends) place := by
  cases texts with
  | nil =>
      obtain rfl := Option.some.inj hdrop
      exact hend.mono (List.subset_cons_self _ _)
  | cons first texts => exact .of_text [','] List.mem_cons_self rfl rfl hdrop

/-- A further text stands behind a comma and a space. -/
theorem exists_commaed {first : List Char} {texts : List (List Char)}
    (hdrop : place.drop? (commaed (first :: texts)) = some after) :
    ∃ comma start middle, Matches grammar .spaced "," place ⟨comma, []⟩ ∧
      skipLayout place = place ∧ skipLayout comma = skipLayout start ∧
      start.drop? first = some middle ∧ middle.drop? (commaed texts) = some after := by
  rw [commaed, List.flatMap_cons, List.cons_append, List.cons_append] at hdrop
  have hat : (Start.text [',']).At place := Start.at_text rfl hdrop
  obtain ⟨offset, _, rfl, hspace⟩ := Cursor.drop?_cons_eq_some hdrop
  obtain ⟨_, rest, heq, htexts⟩ := Cursor.drop?_cons_eq_some hspace
  obtain ⟨rfl, rfl⟩ := Cursor.mk.inj heq
  obtain ⟨middle, hfirst, hothers⟩ := Cursor.drop?_append_eq_some htexts
  exact ⟨_, _, middle, .text rfl, hat.settled, skipLayout_space _ rest, hfirst, hothers⟩

variable (map ends f text P) in
/-- An expression of the grammar reads an item of a series. -/
def ItemRead (item : α) : Prop :=
  ∀ {place after : Cursor}, place.drop? (text item) = some after →
    Follows (.text [','] :: ends) after → PartRead map f (P item) (skipLayout place) after

/-- The items behind the first one are read. -/
theorem matches_commaed (hcomma : ∀ start ∈ ends, start.refuses "," = true)
    (hitems : ∀ item ∈ items, ItemRead map f ends text P item)
    (hdrop : place.drop? (commaed (items.map text)) = some after) (hend : Follows ends after) :
    SeriesRead map (.many (.seq "," f)) P items (skipLayout place) after := by
  induction items generalizing place with
  | nil =>
      obtain rfl := Option.some.inj hdrop
      exact ⟨_, [], [], .noMore (.seqRefused (hend.refused hcomma)), skipLayout_skipLayout place,
        rfl, .nil⟩
  | cons item items ih =>
      obtain ⟨hitem, hothers⟩ := List.forall_mem_cons.1 hitems
      obtain ⟨comma, start, middle, hcommaRead, hsettled, hstart, htext, hbehind⟩ :=
        exists_commaed hdrop
      obtain ⟨stop, tree, part, hmatch, hstop, hpart, hP⟩ :=
        hitem htext (follows_commaed hbehind hend)
      obtain ⟨last, trees, parts, hmany, hlast, hparts, hall⟩ := ih hothers hbehind
      have hround := matches_seq hcommaRead hstart hmatch
      have hskip : grammar.skip .spaced stop = skipLayout middle := hstop
      obtain ⟨stopAll, hrounds, hstopAll⟩ := hround.many_cons (skip_skip .spaced) (hskip ▸ hmany)
      rw [hsettled]
      exact ⟨stopAll, _, _, hrounds, hstopAll.trans hlast, ofTrees_cons hpart hparts,
        .cons hP hall⟩

/-- **The items of a series are read.** -/
theorem matches_joined (hcomma : ∀ start ∈ ends, start.refuses "," = true) {item : α}
    (hitems : ∀ other ∈ item :: items, ItemRead map f ends text P other)
    (hdrop : place.drop? (joined ((item :: items).map text)) = some after)
    (hend : Follows ends after) :
    SeriesRead map (separated "," f) P (item :: items) (skipLayout place) after := by
  obtain ⟨hitem, hothers⟩ := List.forall_mem_cons.1 hitems
  obtain ⟨middle, htext, hbehind⟩ := Cursor.drop?_append_eq_some hdrop
  obtain ⟨stop, tree, part, hmatch, hstop, hpart, hP⟩ :=
    hitem htext (follows_commaed hbehind hend)
  obtain ⟨last, trees, parts, hmany, hlast, hparts, hall⟩ :=
    matches_commaed hcomma hothers hbehind hend
  exact ⟨last, _, _, matches_seq hmatch hstop hmany, hlast, ofTrees_cons hpart hparts,
    .cons hP hall⟩

end Items

end EventLoop.Script
