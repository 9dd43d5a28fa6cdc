import EventLoop.Proofs.Script.Series

/-!
# Lists of expressions

Expressions with commas between are read back as they are read one by one
(`matches_items`).
-/

namespace EventLoop.Script

open Peg

variable (map : LineMap)

/-- An expression is read back wherever it is the value of a place. -/
def Readable (e : Expr) : Prop :=
  ∀ place after : Cursor, place.drop? e.item = some after → Follows closers after →
    Reads map .assignExpr e place after

/-- An expression of the grammar reads an expression between commas. -/
def ItemReads (f : Peg.Expr Rule) (e : Expr) : Prop :=
  ∀ place after : Cursor, place.drop? e.item = some after → Follows closers after →
    ∃ stop tree part value, Matches grammar .spaced f place ⟨stop, [tree]⟩ ∧
      skipLayout stop = skipLayout after ∧ Part.ofTree map tree = .ok part ∧
      part.meaning = .expr value ∧ value.shape = e.shape

/-- Elements of a list are read between two places. -/
def ItemsRead (f : Peg.Expr Rule) (es : List Expr) (place after : Cursor) : Prop :=
  ∃ stop trees parts, Matches grammar .spaced f place ⟨stop, trees⟩ ∧
    skipLayout stop = skipLayout after ∧ Part.ofTrees map trees = .ok parts ∧
    (exprsOf parts).map Expr.shape = es.map Expr.shape

variable {map} {e : Expr} {es : List Expr} {place after : Cursor} {f : Peg.Expr Rule}

theorem exprsOf_cons {part : Part} {value : Expr} (h : part.meaning = .expr value)
    (parts : List Part) : exprsOf (part :: parts) = value :: exprsOf parts := by
  unfold exprsOf
  rw [List.filterMap_cons_some]
  rw [h]

/-! ## What stands around an element -/

/-- What ends an expression in brackets, or a whole text. -/
def brackets : List Start :=
  [.nothing, .text [')'], .text [']']]

/-- What ends an element of a list. -/
def itemEnds : List Start :=
  .text [','] :: brackets

/-- A closing bracket follows. -/
theorem follows_bracket {closer : Char} (hcloser : closer = ')' ∨ closer = ']')
    (hdrop : place.drop? [closer] = some after) :
    Follows brackets place ∧ skipLayout place = place := by
  have hclose : place.drop? ([closer] ++ []) = some after := hdrop
  rcases hcloser with rfl | rfl
  · exact ⟨.of_text _ (by decide) rfl rfl hclose, (Start.at_text rfl hclose).settled⟩
  · exact ⟨.of_text _ (by decide) rfl rfl hclose, (Start.at_text rfl hclose).settled⟩

/-- What stands behind an element of a list. -/
theorem follows_item (hdrop : place.drop? (Expr.listed es) = some after)
    (hend : Follows brackets after) : Follows itemEnds place := by
  rw [Expr.listed_eq] at hdrop
  exact follows_commaed hdrop hend

/-- A further element of a list stands behind a comma and a space. -/
theorem exists_further (hdrop : place.drop? (Expr.listed (e :: es)) = some after) :
    ∃ comma start middle, Matches grammar .spaced "," place ⟨comma, []⟩ ∧
      skipLayout place = place ∧ skipLayout comma = skipLayout start ∧
      start.drop? e.item = some middle ∧ middle.drop? (Expr.listed es) = some after := by
  rw [Expr.listed_eq, List.map_cons] at hdrop
  rw [Expr.listed_eq]
  exact exists_commaed hdrop

/-- No layout stands before elements in brackets. -/
theorem settled_items {closer : Char} (hcloser : closer = ')' ∨ closer = ']')
    (hes : ∀ e ∈ es, e.IsGrouped) {last : Cursor}
    (hdrop : place.drop? (Expr.itemized es) = some after)
    (hclose : after.drop? [closer] = some last) : skipLayout place = place := by
  obtain ⟨hend, hsettled⟩ := follows_bracket hcloser hclose
  cases es with
  | nil =>
      obtain rfl := Option.some.inj hdrop
      exact hsettled
  | cons e es =>
      obtain ⟨middle, hitem, hlisted⟩ := Cursor.drop?_append_eq_some hdrop
      have hfollows := follows_item hlisted hend
      exact ((hes e List.mem_cons_self).sided_start hitem hfollows.word).settled

/-! ## Reading elements -/

theorem Readable.itemReads (h : Readable map e) : ItemReads map (.rule .assignExpr) e := by
  intro place after hdrop hfollows
  obtain ⟨stop, children, hmatch, hstop, part, value, hpart, -, hmeaning, hvalue⟩ :=
    h _ _ hdrop hfollows
  exact ⟨stop, _, part, value, hmatch, hstop, hpart, hmeaning, hvalue⟩

/-- An expression is read back as an element of a list or an argument. -/
theorem Readable.listItem (h : Readable map e) (he : e.IsGrouped) : ItemReads map listItem e := by
  intro place after hdrop hfollows
  obtain ⟨stop, tree, part, value, hmatch, hread⟩ := h.itemReads place after hdrop hfollows
  have hspread : Derives grammar .spaced (.rule .spreadElement) place none :=
    (he.sided_start hdrop hfollows.word).refused (by decide)
  exact ⟨stop, tree, part, value, .altSecond hspread hmatch, hread⟩

/-- The elements of a list are read back. -/
theorem matches_items {first : Expr} (hes : ∀ e ∈ first :: es, e.IsGrouped ∧ ItemReads map f e)
    (hdrop : place.drop? (Expr.itemized (first :: es)) = some after)
    (hend : Follows brackets after) :
    ItemsRead map (separated "," f) (first :: es) place after := by
  have hsettled {e : Expr} (he : e.IsGrouped) {place after : Cursor}
      (hdrop : place.drop? e.item = some after) (hfollows : Follows itemEnds after) :
      skipLayout place = place :=
    (he.sided_start hdrop hfollows.word).settled
  have hitems : ∀ e ∈ first :: es, ItemRead map f brackets Expr.item
      (fun e part => ∃ value, part.meaning = .expr value ∧ value.shape = e.shape) e := by
    intro e he place after hitem hfollows
    obtain ⟨hgrouped, hread⟩ := hes e he
    rw [hsettled hgrouped hitem hfollows]
    obtain ⟨stop, tree, part, value, hmatch, hstop, hpart, hvalue⟩ :=
      hread _ _ hitem (hfollows.mono (by decide))
    exact ⟨stop, tree, part, hmatch, hstop, hpart, value, hvalue⟩
  obtain ⟨middle, hitem, hlisted⟩ := Cursor.drop?_append_eq_some hdrop
  have hplace := hsettled (hes first List.mem_cons_self).1 hitem (follows_item hlisted hend)
  rw [Expr.itemized_eq] at hdrop
  obtain ⟨stop, trees, parts, hmatch, hstop, hparts, hall⟩ :=
    matches_joined (by decide) hitems hdrop hend
  rw [hplace] at hmatch
  refine ⟨stop, trees, parts, hmatch, hstop, hparts, map_filterMap_of_forall₂ (hall.imp ?_)⟩
  rintro e part ⟨value, hmeaning, hvalue⟩
  exact ⟨value, by rw [hmeaning], hvalue⟩

end EventLoop.Script
