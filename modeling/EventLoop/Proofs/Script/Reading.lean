import EventLoop.Proofs.Script.Assembly

/-!
# Programs are read in the order of the text

The grammar gives a well-formed tree that comes from a match, and the meanings of its
parts are put together from the inside out, so that in the end the phrases of the whole
program are placed in its text (`placed_parse`).
-/

namespace EventLoop.Script

open Peg

variable {text : List Char}

/-! ## Trees -/

/-- A tree that the grammar gives at a place of a text. -/
structure Grown (text : List Char) (tree : Peg.Tree Rule) : Prop where
  leads : (Cursor.start text).Leads tree.start
  inside : tree.start.Leads tree.stop
  formed : tree.Formed grammar
  derived : tree.Derived grammar
  unsupported : tree.rule = .unknownStmt → Unsupported tree.start
  aligned : isPiece tree.rule = false → AtSeam text tree.start.rest

/-- The children of a tree are given at places of the text, too. -/
theorem Grown.children {rule : Rule} {start stop : Cursor} {children : List (Peg.Tree Rule)}
    (h : Grown text (.node rule start stop children)) : ∀ child ∈ children, Grown text child := by
  obtain ⟨hleads, -, hformed, hderived, -, haligned⟩ := h
  have hunsupported := unsupported_of_derived hformed hderived
  have hstarts := atSeam_of_derived hderived hleads.suffix haligned
  cases hformed with
  | node row _ formed =>
      cases hderived with
      | node _ _ _ _ derived =>
          intro child hchild
          obtain ⟨hstart, hinside⟩ := row.leads_of_mem hchild
          exact ⟨hleads.trans hstart, hinside, formed child hchild, derived child hchild,
            hunsupported child hchild, hstarts child hchild⟩

/-- Most rules read something. -/
theorem moves_of_derived {rule : Rule} {start stop : Cursor} {children : List (Peg.Tree Rule)}
    (h : Tree.Derived grammar (.node rule start stop children)) (hmoves : mayBeEmpty rule = false) :
    start.offset ≠ stop.offset := by
  intro hoffset
  cases h with
  | node _ _ _ hbody _ =>
      have hempty := founded.mayBeEmpty_of_body rule (hbody.mayBeEmpty founded hoffset.symm)
      exact nomatch hmoves.symm.trans hempty

/-- The part of a tree stands where the tree is. -/
theorem Grown.stands {rule : Rule} {start stop : Cursor} {children : List (Peg.Tree Rule)}
    (h : Grown text (.node rule start stop children)) (meaning : Meaning) :
    Part.Stands text
      ⟨rule, start, stop, (LineMap.ofText text).span start.offset stop.offset, meaning⟩ where
  leads := h.leads
  inside := h.inside
  span_eq := rfl
  moves := fun hmoves => Nat.lt_of_le_of_ne h.inside.offset_le (moves_of_derived h.derived hmoves)
  aligned := h.aligned
  ended := fun hrule => by
    rcases Bool.or_eq_true_iff.1 hrule with hword | hname
    · exact startsInName_of_derived hword h.derived
    · exact (isAccepted_of_derived hname h.derived).2
  spelled := fun hplain => by
    obtain ⟨htoken, hmentions⟩ := Bool.and_eq_true_iff.1 hplain
    exact spells_of_derived (of_decide_eq_true htoken) (of_decide_eq_true hmentions) h.derived
  name := fun hrule => (isAccepted_of_derived hrule h.derived).1
  key := by
    rintro rfl
    exact isName_of_derived h.derived
  raw := by
    rintro rfl
    obtain ⟨hraw, hwhole⟩ := isRawText_of_derived h.derived
    exact ⟨hraw, hwhole, h.unsupported rfl⟩

/-! ## Trees with their meanings -/

/-- Parts that come from the trees of a row. -/
structure FromTrees (text : List Char) (trees : List (Peg.Tree Rule)) (parts : List Part) :
    Prop where
  rules : parts.map Part.rule = trees.map Peg.Tree.rule
  fits : ∀ part ∈ parts, part.Fits text
  between : ∀ {first last : Cursor}, Row first trees last →
    Between first.offset parts last.offset

/-- The parts of a tree stand in it as the grammar says. -/
theorem FromTrees.standing {rule : Rule} {start stop : Cursor} {children : List (Peg.Tree Rule)}
    {parts : List Part} (hfrom : FromTrees text children parts)
    (h : Grown text (.node rule start stop children)) :
    Standing text rule
      ⟨rule, start, stop, (LineMap.ofText text).span start.offset stop.offset, .token⟩ parts := by
  have hstands := h.stands .token
  obtain ⟨-, -, hformed, hderived, -⟩ := h
  cases hformed with
  | node row labels _ =>
      refine ⟨hstands, rfl, hfrom.between row, hfrom.fits, fun hkind => ?_, ?_⟩
      · rw [hfrom.rules]
        exact labels hkind
      · rintro rfl
        rw [hfrom.rules]
        exact guarded_of_derived hderived

mutual

/-- A tree that the grammar gives has its phrases between its ends. -/
theorem fits_ofTree (tree : Peg.Tree Rule) (hgrown : Grown text tree) {part : Part}
    (h : Part.ofTree (.ofText text) tree = .ok part) :
    part.Fits text ∧ part.rule = tree.rule ∧ part.start = tree.start ∧ part.stop = tree.stop := by
  match tree with
  | .node rule start stop children =>
      unfold Part.ofTree at h
      obtain ⟨parts, hparts, h⟩ := bind_ok h
      obtain ⟨meaning, hmeaning, h⟩ := bind_ok h
      obtain rfl := Except.ok.inj h
      have hfrom := fits_ofTrees children hgrown.children hparts
      obtain ⟨hcategory, hplaced, hproper⟩ := (hfrom.standing hgrown).assembled hmeaning
      exact ⟨⟨hgrown.stands meaning, hcategory, hplaced, hproper⟩, rfl, rfl, rfl⟩

theorem fits_ofTrees (trees : List (Peg.Tree Rule)) (hgrown : ∀ tree ∈ trees, Grown text tree)
    {parts : List Part} (h : Part.ofTrees (.ofText text) trees = .ok parts) :
    FromTrees text trees parts := by
  match trees with
  | [] =>
      obtain rfl := Except.ok.inj h
      refine ⟨rfl, by simp, fun hrow => ?_⟩
      exact .nil hrow.leads.offset_le
  | tree :: rest =>
      unfold Part.ofTrees at h
      obtain ⟨part, hpart, h⟩ := bind_ok h
      obtain ⟨parts, hparts, h⟩ := bind_ok h
      obtain rfl := Except.ok.inj h
      obtain ⟨htree, hrest⟩ := List.forall_mem_cons.1 hgrown
      obtain ⟨hfits, hrule, hstart, hstop⟩ := fits_ofTree tree htree hpart
      have hfrom := fits_ofTrees rest hrest hparts
      refine ⟨?_, List.forall_mem_cons.2 ⟨hfits, hfrom.fits⟩, fun hrow => ?_⟩
      · rw [List.map_cons, List.map_cons, hrule, hfrom.rules]
      · cases hrow with
        | cons hbefore hinside hbehind =>
            refine .cons ?_ ?_ ?_
            · rw [hstart]
              exact hbefore.offset_le
            · rw [hstart, hstop]
              exact hinside.offset_le
            · rw [hstop]
              exact hfrom.between hbehind

end

/-! ## Texts -/

/-- The tree that a match of a text gives. -/
theorem exists_tree {attempts : Attempts Rule} {stop : Cursor} {trees : List (Peg.Tree Rule)}
    (h : match? text = .success attempts stop trees) :
    ∃ children, trees = [.node .program (.start text) stop children] ∧
      Grown text (.node .program (.start text) stop children) := by
  have hderives := derives_match text
  rw [h] at hderives
  have hmatches := hderives.matches _ rfl
  have hleads := hmatches.leads skips_grammar
  have hderived := hmatches.derived separates_grammar fun hmode => absurd hmode (by decide)
  obtain ⟨inner, -, hinner⟩ := hmatches.of_rule
  obtain ⟨rfl, rfl⟩ := Match.mk.inj hinner
  obtain ⟨tree, htree, -, hformed⟩ := formed_of_parse skips_grammar (by decide) h
  obtain rfl := (List.cons.inj htree).1
  exact ⟨inner.trees, rfl, .refl _, hleads, hformed, hderived _ List.mem_cons_self,
    fun hrule => Rule.noConfusion hrule, fun _ => .refl text⟩

theorem exists_program {source : String} (h : (parse source).isOk = true) :
    ∃ program, parse source = .ok program := by
  cases hparse : parse source with
  | error error =>
      rw [hparse] at h
      contradiction
  | ok program => exact ⟨program, rfl⟩

/-- A program is made of the parts of the tree of its text. -/
theorem exists_parts {source : String} {program : Program} (h : parse source = .ok program) :
    ∃ attempts stop children parts,
      match? source.toList =
        .success attempts stop [.node .program (.start source.toList) stop children] ∧
      Grown source.toList (.node .program (.start source.toList) stop children) ∧
      Part.ofTrees (.ofText source.toList) children = .ok parts ∧
      program = ⟨stmtsOf parts, (LineMap.ofText source.toList).span 0 stop.offset⟩ := by
  unfold parse at h
  dsimp only at h
  split at h
  · contradiction
  · rename_i attempts stop trees hmatch
    obtain ⟨children, rfl, hgrown⟩ := exists_tree hmatch
    cases hread : readProgram (.ofText source.toList)
        [.node .program (.start source.toList) stop children] with
    | error error =>
        rw [hread] at h
        contradiction
    | ok read =>
        rw [hread] at h
        obtain rfl := Except.ok.inj h
        obtain ⟨-, -, hbehind⟩ := bind_ok hread
        obtain ⟨parts, hparts, hprogram⟩ := bind_ok hbehind
        exact ⟨attempts, stop, children, parts, hmatch, hgrown, hparts,
          (Except.ok.inj hprogram).symm⟩

/-- The phrases of a program are placed in its text. -/
theorem placed_parse {source : String} {program : Program} (h : parse source = .ok program) :
    Placed source.toList program.span.start program.span.stop (program.body.map .stmt) ∧
      program.span.StretchOf source.toList := by
  obtain ⟨-, stop, children, parts, -, hgrown, hparts, rfl⟩ := exists_parts h
  have hfrom := fits_ofTrees children hgrown.children hparts
  have hstanding := hfrom.standing hgrown
  exact ⟨hstanding.placed (hstanding.stmts (.refl _)), hstanding.stands.stretch⟩

/-- **Spans are sound and nested.**  The span of a program, of each of its phrases and of
everything inside them is a stretch of the text, with the lines and the columns of its ends.
No phrase is empty, and the children of each stand in its span one after the other, in the
order in which they are written. -/
theorem spans_parse {source : String} {program : Program} (h : parse source = .ok program) :
    program.span.StretchOf source.toList ∧
      Phrase.InRow program.span.start program.span.stop (program.body.map .stmt) ∧
      program.Everywhere fun phrase =>
        phrase.span.StretchOf source.toList ∧ phrase.span.start < phrase.span.stop ∧
          Phrase.InRow phrase.span.start phrase.span.stop phrase.children := by
  obtain ⟨hplaced, hspan⟩ := placed_parse h
  refine ⟨hspan, hplaced.row, fun stmt hstmt => ?_⟩
  exact (hplaced.sound (.stmt stmt) (List.mem_map_of_mem hstmt)).imp fun phrase hsound =>
    ⟨hsound.stretch, hsound.moves, hsound.row⟩

/-- A script over two lines, with a character of two bytes and an expression in parentheses. -/
theorem spans_parse_lines :
    let source := "f('é') +\n  (g(a) /* é */);"
    ∃ program, parse source = .ok program ∧ program.span.StretchOf source.toList ∧
      Phrase.InRow program.span.start program.span.stop (program.body.map .stmt) ∧
      program.Everywhere fun phrase =>
        phrase.span.StretchOf source.toList ∧ phrase.span.start < phrase.span.stop ∧
          Phrase.InRow phrase.span.start phrase.span.stop phrase.children := by
  intro source
  have hok : (parse source).isOk = true := by decide +kernel
  obtain ⟨program, hparse⟩ := exists_program hok
  exact ⟨program, hparse, spans_parse hparse⟩

end EventLoop.Script
