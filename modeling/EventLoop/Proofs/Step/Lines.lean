import EventLoop.Proofs.Script.Spread
import EventLoop.Proofs.Script.Refusal
import EventLoop.Proofs.Step.Walk

/-!
# Steps come in the order of the text

A step has the line on which the span of its site starts
(`sourceLine_classify`).  A walk goes to the sites in their order and makes one
step at most of each, so that the lines of its steps are among the lines of the
sites, in the same order (`Trail.lines`).  The sites of a program are spread over
the text that it is read from, so that their lines never go back, and neither do
those of the steps (`sourceLine_stepsOf`).

A walk may leave sites out, but this cannot hurt: what is left of a list in
order is in order.
-/

namespace EventLoop

open Script

/-! ## The line of a step -/

theorem sourceLine_placedIn (step : Step) (ancestry : List Ancestor) :
    (step.placedIn ancestry).sourceLine = step.sourceLine := by
  cases ancestry <;> rfl

theorem sourceLine_callStep (shape : CallShape) (known : Extraction) (kind : NodeKind) (e : Expr) :
    (shape.step known kind e).sourceLine = e.span.line := by
  cases shape <;> rfl

theorem sourceLine_classifyExpr (known : Extraction) (kind : NodeKind) (e : Expr) :
    (classifyExpr known kind e).sourceLine = e.span.line := by
  unfold classifyExpr
  dsimp only
  split
  · rfl
  · rfl
  · split
    · exact sourceLine_callStep _ known kind e
    · rfl

/-- The step that is due at a site has the line of the site. -/
theorem sourceLine_classify (known : Extraction) (ancestry : List Ancestor)
    {functions : Table FunctionInfo} {site : Site} {node : Node}
    (hdue : site.due? functions = some node) :
    (classify known ancestry node).sourceLine = site.span.line := by
  unfold classify
  rw [sourceLine_placedIn]
  cases site with
  | pattern value => contradiction
  | expr whole e =>
      cases whole with
      | true => contradiction
      | false =>
          obtain ⟨-, hnode⟩ := Option.ite_none_right_eq_some.1 hdue
          obtain rfl := Option.some.inj hnode
          exact sourceLine_classifyExpr known _ e
  | stmt value =>
      cases value with
      | block | emptyStmt | labeled => contradiction
      | exprStmt e span =>
          obtain rfl := Option.some.inj hdue
          exact sourceLine_classifyExpr known _ e
      | _ =>
          obtain rfl := Option.some.inj hdue
          rfl

/-! ## The lines of a walk -/

/-- The lines of the steps that have been made. -/
def Extraction.lines (known : Extraction) : List Nat :=
  known.steps.map Step.sourceLine

theorem Extraction.lines_emit (known : Extraction) (ancestry : List Ancestor) (node : Node) :
    (known.emit ancestry node).lines = known.lines ++ [(classify known ancestry node).sourceLine] :=
  List.map_append

theorem Extraction.lines_declareAll (infos : List FunctionInfo) (known : Extraction) :
    (infos.foldl Extraction.declare known).lines = known.lines := by
  rw [functions_declareAll]
  rfl

/-- A visit makes one step at most, with the line of its site. -/
theorem Extraction.lines_visit (known : Extraction) (ancestry : List Ancestor) (site : Site) :
    ∃ lines, lines.Sublist [site.span.line] ∧
      (known.visit ancestry site).lines = known.lines ++ lines := by
  unfold visit
  dsimp only
  split
  · rename_i node hdue
    refine ⟨[site.span.line], .refl _, ?_⟩
    rw [lines_emit, lines_declareAll, sourceLine_classify _ ancestry hdue]
  · refine ⟨[], List.nil_sublist _, ?_⟩
    rw [lines_declareAll, List.append_nil]

/-- Visits make steps with the lines of their sites, in order. -/
theorem Trail.lines {sites : List Site} {known last : Extraction} (h : Trail sites known last) :
    ∃ lines, lines.Sublist (sites.map fun site => site.span.line) ∧
      last.lines = known.lines ++ lines := by
  induction h with
  | nil known => exact ⟨[], .slnil, (List.append_nil _).symm⟩
  | @cons site rest known last ancestry _ ih =>
      obtain ⟨later, hlater, hlast⟩ := ih
      obtain ⟨lines, hlines, hvisit⟩ := known.lines_visit ancestry site
      refine ⟨lines ++ later, hlines.append hlater, ?_⟩
      rw [hlast, hvisit, List.append_assoc]

/-- The lines of the steps of a program are lines of its sites, in order. -/
theorem sublist_lines_extract (program : Program) :
    (extract program).lines.Sublist (program.sites.map fun site => site.span.line) := by
  obtain ⟨visited, hvisited, -, htrail⟩ := walked_extract program
  obtain ⟨lines, hlines, hlast⟩ := htrail.lines
  rw [hlast]
  exact hlines.trans (hvisited.map _)

/-! ## The lines of a text -/

theorem Span.Located.line_eq {map : LineMap} {span : Span} (h : span.Located map) :
    span.line = map.lineAt span.start + 1 :=
  congrArg (· + 1) h

/-- Spread sites have lines that never go back. -/
theorem Spread.lines {map : LineMap} {first last : Nat} {sites : List Site}
    (h : Spread map first last sites) :
    (sites.map fun site => site.span.line).Pairwise (· ≤ ·) := by
  rw [List.pairwise_map]
  refine h.sorted.imp_of_mem fun ha hb hle => ?_
  rw [(h.located _ ha).line_eq, (h.located _ hb).line_eq]
  exact Nat.succ_le_succ (map.line_mono hle)

/-- **Steps come in the order of the text.**  The lines of the steps of a text,
be it a script or not, never go back, and they are lines of the text, which are
one more than its line feeds. -/
theorem sourceLine_stepsOf (source : String) :
    ((stepsOf source).map Step.sourceLine).Pairwise (· ≤ ·) ∧
      ∀ line ∈ (stepsOf source).map Step.sourceLine,
        1 ≤ line ∧ line ≤ 1 + source.toList.count '\n' := by
  have hline (offset : Nat) :
      (LineMap.ofText source.toList).lineAt offset ≤ source.toList.count '\n' :=
    LineMap.line_le source.toList offset
  unfold stepsOf extractSource
  split
  · rename_i program hparse
    obtain ⟨first, last, hspread⟩ := spread_parse hparse
    have hsublist := sublist_lines_extract program
    refine ⟨hspread.lines.sublist hsublist, fun line hmem => ?_⟩
    obtain ⟨site, hsite, rfl⟩ := List.mem_map.1 (hsublist.subset hmem)
    rw [(hspread.located site hsite).line_eq]
    have hsiteLine := hline site.span.start
    omega
  · rename_i error hparse
    obtain ⟨offset, hoffset⟩ := located_parse hparse
    refine ⟨List.pairwise_singleton _ _, fun line hmem => ?_⟩
    obtain rfl : line = error.span.startLine + 1 := List.mem_singleton.1 hmem
    have herrorLine := hline offset
    omega

end EventLoop
