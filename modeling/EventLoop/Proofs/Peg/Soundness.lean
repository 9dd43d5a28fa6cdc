import EventLoop.Proofs.Peg.Shape

/-!
# Matching gives well-formed trees

What a match gives `Fits` its expression: the trees stand in a row between the
two places, they are well-formed, and their rules are those that the expression
records.  This follows the structure of matching.

* **Expressions** (`fits_matchExpr`): by the structure of the expression, if all
  uses of rules fit from the place at hand on.
* **Rules** (`fits_matchRule`): uses at the same place by the depth to which
  they may nest, and uses at later places by what is known of these.
* **Texts** (`fits_lookUp`): the answers at all places of a text fit, from its
  end to its start.
-/

namespace EventLoop.Peg

variable {R : Type} {grammar : Grammar R}

/-- The outcome of an expression at a place, if it is a success, is a row of
well-formed trees with the rules that the expression records. -/
def Outcome.Fits (grammar : Grammar R) (mode : Mode) (e : Expr R) (cursor : Cursor) :
    Outcome R → Prop
  | .failure _ => True
  | .success _ stop trees =>
    Row cursor trees stop ∧ (∀ tree ∈ trees, tree.Formed grammar) ∧
      (mode ≠ .token → Labels grammar e (trees.map Tree.rule))

namespace Outcome.Fits

variable {mode : Mode} {e : Expr R} {cursor stop : Cursor}

/-- A success without trees. -/
theorem success (attempts : Attempts R) (hstop : cursor.Leads stop) (h : Labels grammar e []) :
    (Outcome.success attempts stop []).Fits grammar mode e cursor :=
  ⟨.nil hstop, by simp, fun _ => h⟩

/-- The outcome counts for an expression that records at least as much. -/
theorem mono {f : Expr R} {outcome : Outcome R} (h : outcome.Fits grammar mode e cursor)
    (hlabels : ∀ rules, Labels grammar e rules → Labels grammar f rules) :
    outcome.Fits grammar mode f cursor := by
  cases outcome with
  | failure attempts => trivial
  | success attempts stop trees =>
      obtain ⟨hrow, hformed, hrules⟩ := h
      exact ⟨hrow, hformed, fun hmode => hlabels _ (hrules hmode)⟩

/-- Attempts before a match make no difference to what it gives. -/
theorem after [DecidableEq R] {outcome : Outcome R} (h : outcome.Fits grammar mode e cursor)
    (earlier : Attempts R) : (outcome.after earlier []).Fits grammar mode e cursor := by
  cases outcome with
  | failure attempts => trivial
  | success attempts stop trees => exact h

/-- A match behind another one, perhaps after layout. -/
theorem andThen [DecidableEq R] {f whole : Expr R} {attempts : Attempts R} {trees : List (Tree R)}
    {next : Cursor} {outcome : Outcome R}
    (h : (Outcome.success attempts stop trees).Fits grammar mode e cursor)
    (hnext : stop.Leads next) (hrest : outcome.Fits grammar mode f next)
    (hlabels : ∀ rules others, Labels grammar e rules → Labels grammar f others →
      Labels grammar whole (rules ++ others)) :
    (outcome.after attempts trees).Fits grammar mode whole cursor := by
  cases outcome with
  | failure others => trivial
  | success others last otherTrees =>
      obtain ⟨hrow, hformed, hrules⟩ := h
      obtain ⟨hrowRest, hformedRest, hrulesRest⟩ := hrest
      refine ⟨hrow.append (hrowRest.before hnext),
        List.forall_mem_append.2 ⟨hformed, hformedRest⟩, fun hmode => ?_⟩
      rw [List.map_append]
      exact hlabels _ _ (hrules hmode) (hrulesRest hmode)

theorem stop_leads {attempts : Attempts R} {trees : List (Tree R)}
    (h : (Outcome.success attempts stop trees).Fits grammar mode e cursor) :
    cursor.Leads stop :=
  h.1.leads

end Outcome.Fits

/-! ## Expressions -/

/-- Layout is skipped by reading on. -/
def Grammar.Skips (grammar : Grammar R) : Prop :=
  ∀ cursor : Cursor, cursor.Leads (grammar.skipLayout cursor)

theorem Grammar.Skips.skip (h : grammar.Skips) (mode : Mode) (cursor : Cursor) :
    cursor.Leads (grammar.skip mode cursor) := by
  unfold Grammar.skip
  split
  · exact h cursor
  · exact .refl cursor

/-- From a place on, a matcher fits an expression. -/
def FitsFrom (grammar : Grammar R) (start : Cursor) (mode : Mode) (e : Expr R)
    (matcher : Matcher R) : Prop :=
  ∀ cursor : Cursor, start.Leads cursor → (matcher cursor).Fits grammar mode e cursor

section Expressions

variable [DecidableEq R] {start : Cursor} {mode : Mode}

theorem fits_matchRounds (hskips : grammar.Skips) {e : Expr R} {round : Matcher R}
    (hround : FitsFrom grammar start mode e round) (rounds : Nat) :
    FitsFrom grammar start mode (.many e) (matchRounds (grammar.skip mode) round rounds) := by
  induction rounds with
  | zero => exact fun cursor _ => .success {} (.refl cursor) (.noMore e)
  | succ rounds ih =>
      intro cursor hcursor
      have hskip := hskips.skip mode cursor
      have hfits := hround _ (hcursor.trans hskip)
      rw [matchRounds]
      cases hmatch : round (grammar.skip mode cursor) with
      | failure attempts => exact .success attempts (.refl cursor) (.noMore e)
      | success attempts stop trees =>
          rw [hmatch] at hfits
          have hstop := hcursor.trans (hskip.trans hfits.stop_leads)
          have hmore := hfits.andThen (.refl stop) (ih stop hstop) fun _ _ => Labels.more
          dsimp only
          generalize (matchRounds (grammar.skip mode) round rounds stop).after attempts trees =
            outcome at hmore
          cases outcome with
          | failure attempts => trivial
          | success attempts last trees =>
              exact ⟨hmore.1.before hskip, hmore.2.1, hmore.2.2⟩

/-- Matching an expression fits it, if the uses of rules do from here on. -/
theorem fits_matchExpr (hskips : grammar.Skips) (rounds : Nat) {use : Mode → R → Matcher R}
    (huse : ∀ mode r, FitsFrom grammar start mode (.rule r) (use mode r)) (e : Expr R) :
    FitsFrom grammar start mode e (matchExpr grammar rounds use mode e) := by
  induction e with
  | text characters =>
      intro cursor _
      rw [matchExpr]
      cases hdrop : cursor.drop? characters with
      | none => trivial
      | some stop => exact .success {} (.of_drop? characters hdrop) (.text characters)
  | char accepts =>
      intro cursor _
      obtain ⟨offset, rest⟩ := cursor
      cases rest with
      | nil => trivial
      | cons c rest =>
          rw [matchExpr]
          split
          · exact .success {} (.char offset c rest) (.char accepts)
          · trivial
  | endOfText =>
      intro cursor _
      rw [matchExpr]
      split
      · exact .success {} (.refl cursor) .endOfText
      · trivial
  | rule r => exact huse mode r
  | seq first second ih ihSecond =>
      intro cursor hcursor
      have hfits := ih cursor hcursor
      rw [matchExpr]
      cases hmatch : matchExpr grammar rounds use mode first cursor with
      | failure attempts => trivial
      | success attempts stop trees =>
          rw [hmatch] at hfits
          have hskip := hskips.skip mode stop
          have hnext := hcursor.trans (hfits.stop_leads.trans hskip)
          exact hfits.andThen hskip (ihSecond _ hnext) fun _ _ => Labels.seq
  | alt first second ih ihSecond =>
      intro cursor hcursor
      have hfits := ih cursor hcursor
      rw [matchExpr]
      cases hmatch : matchExpr grammar rounds use mode first cursor with
      | failure attempts =>
          have hsecond := ihSecond cursor hcursor
          exact (hsecond.after attempts).mono fun _ => Labels.altRight first
      | success attempts stop trees =>
          rw [hmatch] at hfits
          exact hfits.mono fun _ hrules => hrules.altLeft second
  | optional e ih =>
      intro cursor hcursor
      have hfits := ih cursor hcursor
      rw [matchExpr]
      cases hmatch : matchExpr grammar rounds use mode e cursor with
      | failure attempts => exact .success attempts (.refl cursor) (.absent e)
      | success attempts stop trees =>
          rw [hmatch] at hfits
          exact hfits.mono fun _ => Labels.present
  | many e ih =>
      intro cursor hcursor
      have hfits := ih cursor hcursor
      rw [matchExpr]
      cases hmatch : matchExpr grammar rounds use mode e cursor with
      | failure attempts => exact .success attempts (.refl cursor) (.noMore e)
      | success attempts stop trees =>
          rw [hmatch] at hfits
          have hstop := hcursor.trans hfits.stop_leads
          exact hfits.andThen (.refl stop) (fits_matchRounds hskips ih rounds stop hstop)
            fun _ _ => Labels.more
  | «unless» e _ =>
      intro cursor _
      rw [matchExpr]
      split
      · exact .success {} (.refl cursor) (.refused e)
      · trivial

end Expressions

/-! ## Rules -/

/-- A match of the body of a rule is one of the rule, recorded or not. -/
theorem Outcome.Fits.ofBody {mode : Mode} {rule : R} {cursor : Cursor} {outcome : Outcome R}
    (h : outcome.Fits grammar ((grammar.kind rule).modeIn mode) (grammar.body rule) cursor) :
    (if grammar.kind rule = .hidden ∨ mode = .token then outcome
      else outcome.recorded rule cursor).Fits grammar mode (.rule rule) cursor := by
  cases outcome with
  | failure attempts => split <;> trivial
  | success attempts stop trees =>
      obtain ⟨hrow, hformed, hrules⟩ := h
      split
      · rename_i hsilent
        refine ⟨hrow, hformed, fun hmode => ?_⟩
        exact .hidden (hsilent.resolve_right hmode) _
      · rename_i hrecorded
        obtain ⟨-, hmode⟩ := not_or.1 hrecorded
        have hinner : grammar.kind rule ≠ .token → (grammar.kind rule).modeIn mode ≠ .token := by
          intro hkind
          cases hcase : grammar.kind rule with
          | token => exact absurd hcase hkind
          | plain | hidden => exact hmode
          | joined | spaced => simp [RuleKind.modeIn]
        refine ⟨.cons (.refl cursor) hrow.leads (.nil (.refl stop)), ?_, fun _ => .rule rule⟩
        intro tree htree
        rw [List.mem_singleton.1 htree]
        exact .node hrow (fun hkind => hrules (hinner hkind)) hformed

section Rules

variable [DecidableEq R]

/-- Matching a rule fits it, if the matches of rules at later places do. -/
theorem fits_matchRule (hskips : grammar.Skips) (rounds : Nat) {later : Mode → R → Matcher R}
    {cursor : Cursor}
    (hlater : ∀ mode r place, cursor.Leads place → place.offset ≠ cursor.offset →
      (later mode r place).Fits grammar mode (.rule r) place) (depth : Nat) :
    ∀ (mode : Mode) (rule : R),
      (matchRule grammar rounds later depth mode rule cursor).Fits grammar mode (.rule rule)
        cursor := by
  induction depth with
  | zero => exact fun _ _ => trivial
  | succ depth ih =>
      intro mode rule
      rw [matchRule]
      refine .ofBody (fits_matchExpr hskips rounds ?_ (grammar.body rule) cursor (.refl cursor))
      intro mode rule place hplace
      dsimp only
      split
      · rename_i hoffset
        rw [hplace.eq_of_offset_eq hoffset]
        exact ih mode rule
      · rename_i hoffset
        exact hlater mode rule place hplace hoffset

end Rules

/-! ## Texts -/

section Texts

variable [DecidableEq R]

section LookUp

variable (grammar : Grammar R) (rounds depth : Nat)

/-- The answers at the end of a text. -/
theorem lookUp_end (offset : Nat) (mode : Mode) (rule : R) :
    lookUp offset (answersFrom grammar rounds depth offset []) mode rule ⟨offset, []⟩ =
      matchRule grammar rounds (lookUp offset []) depth mode rule ⟨offset, []⟩ := by
  simp only [lookUp, answersFrom, Nat.sub_self, List.getElem?_cons_zero]
  rw [get_answersAt]

/-- The answers at the start of a text come from those behind its first
character. -/
theorem lookUp_start (offset : Nat) (c : Char) (text : List Char) (mode : Mode) (rule : R) :
    lookUp offset (answersFrom grammar rounds depth offset (c :: text)) mode rule
        ⟨offset, c :: text⟩ =
      matchRule grammar rounds
        (lookUp (offset + c.utf8Size)
          (answersFrom grammar rounds depth (offset + c.utf8Size) text))
        depth mode rule ⟨offset, c :: text⟩ := by
  have hpos := c.utf8Size_pos
  have hfirst : (answersFrom grammar rounds depth offset (c :: text))[offset - offset]? =
      some (answersAt grammar rounds depth ⟨offset, c :: text⟩ (offset + c.utf8Size)
        (answersFrom grammar rounds depth (offset + c.utf8Size) text)) := by
    rw [answersFrom, Nat.sub_self, List.getElem?_append_left (by simpa using hpos),
      List.getElem?_replicate, if_pos hpos]
  simp only [lookUp, hfirst]
  rw [get_answersAt]

/-- The answers at later places of a text are those behind its first character. -/
theorem lookUp_later {offset : Nat} {c : Char} {place : Cursor}
    (h : offset + c.utf8Size ≤ place.offset) (text : List Char) (mode : Mode) (rule : R) :
    lookUp offset (answersFrom grammar rounds depth offset (c :: text)) mode rule place =
      lookUp (offset + c.utf8Size) (answersFrom grammar rounds depth (offset + c.utf8Size) text)
        mode rule place := by
  have hrest : (answersFrom grammar rounds depth offset (c :: text))[place.offset - offset]? =
      (answersFrom grammar rounds depth (offset + c.utf8Size) text)[
        place.offset - (offset + c.utf8Size)]? := by
    rw [answersFrom, List.getElem?_append_right (by simp; omega), List.length_replicate]
    congr 1
    omega
  simp only [lookUp, hrest]

end LookUp

/-- The answers at the places of a text fit. -/
theorem fits_lookUp (hskips : grammar.Skips) (rounds depth : Nat) (text : List Char) :
    ∀ (offset : Nat) (mode : Mode) (rule : R),
      FitsFrom grammar ⟨offset, text⟩ mode (.rule rule)
        (lookUp offset (answersFrom grammar rounds depth offset text) mode rule) := by
  induction text with
  | nil =>
      intro offset mode rule place hplace
      rw [hplace.eq_of_end, lookUp_end]
      refine fits_matchRule hskips rounds ?_ depth mode rule
      intro mode r place hplace hoffset
      exact absurd (congrArg Cursor.offset hplace.eq_of_end) hoffset
  | cons c text ih =>
      intro offset mode rule place hplace
      rcases hplace.eq_or_next with rfl | hnext
      · rw [lookUp_start]
        refine fits_matchRule hskips rounds ?_ depth mode rule
        intro mode r place hplace hoffset
        rcases hplace.eq_or_next with rfl | hnext
        · exact absurd rfl hoffset
        · exact ih (offset + c.utf8Size) mode r place hnext
      · rw [lookUp_later _ _ _ hnext.offset_le]
        exact ih (offset + c.utf8Size) mode rule place hnext

/-- A text that matches a recorded rule gives one well-formed tree of this rule. -/
theorem formed_of_parse (hskips : grammar.Skips) {ruleCount : Nat} {rule : R} {text : List Char}
    (hkind : grammar.kind rule ≠ .hidden) {attempts : Attempts R} {stop : Cursor}
    {trees : List (Tree R)} (h : parse grammar ruleCount rule text = .success attempts stop trees) :
    ∃ tree, trees = [tree] ∧ tree.rule = rule ∧ tree.Formed grammar := by
  have hfits := fits_lookUp hskips (text.length + 1) (ruleCount + 1) text 0 .spaced rule
    (.start text) (.refl _)
  rw [parse] at h
  rw [h] at hfits
  obtain ⟨-, hformed, hrules⟩ := hfits
  have hsingle : trees.map Tree.rule = [rule] := by
    have hlabels := hrules (by simp)
    generalize trees.map Tree.rule = rules at hlabels
    cases hlabels with
    | rule => rfl
    | hidden h => exact absurd h hkind
  obtain ⟨tree, rfl, hrule⟩ := List.map_eq_singleton_iff.1 hsingle
  exact ⟨tree, rfl, hrule, hformed tree (by simp)⟩

end Texts

end EventLoop.Peg
