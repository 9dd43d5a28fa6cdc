import EventLoop.Proofs.Step.Walk
import Mathlib.Data.List.Forall2

/-!
# No step is lost or made twice

The steps of a program without default values in its patterns are those that
its sites deserve: one for each of them, in the order of the text, and no
others (`steps_extract`).  The census of the sites says which these are.  It
takes the functions into account that are declared up to a site, and knows
nothing of branches, loops, callbacks or any other place where a site can be.
-/

namespace EventLoop

open Script

/-- A node that deserves a step, and the functions that are declared up to its
site. -/
structure Due where
  functions : Table FunctionInfo
  node : Node

/-- The nodes for which sites deserve steps, in order, if some functions are
declared before. -/
def census (functions : Table FunctionInfo) : List Site → List Due
  | [] => []
  | site :: rest =>
    let functions := site.functions.foldl (fun table info => table.insert info.name info) functions
    ((site.due? functions).map fun node => { functions, node }).toList ++ census functions rest

/-- The step is the one of the node, at a moment when the same functions are
known. -/
def Step.MadeFor (step : Step) (due : Due) : Prop :=
  ∃ (known : Extraction) (ancestry : List Ancestor),
    known.functions = due.functions ∧ step = classify known ancestry due.node

/-! ## Visits and the census -/

/-- A visit makes the step that is due at its site, and declares the functions
that the rest of the census counts with. -/
theorem Extraction.visit_eq (known : Extraction) (ancestry : List Ancestor) (site : Site)
    (rest : List Site) :
    ∃ steps dues, (known.visit ancestry site).steps = known.steps ++ steps ∧
      census known.functions (site :: rest) =
        dues ++ census (known.visit ancestry site).functions rest ∧
      List.Forall₂ Step.MadeFor steps dues := by
  rw [visit, census, functions_declareAll]
  dsimp only
  generalize site.functions.foldl (fun table info => table.insert info.name info)
    known.functions = functions
  cases site.due? functions with
  | none => exact ⟨[], [], (List.append_nil _).symm, rfl, .nil⟩
  | some node =>
      exact ⟨[classify { known with functions } ancestry node], [{ functions, node }], rfl, rfl,
        .cons ⟨_, ancestry, rfl, rfl⟩ .nil⟩

/-- Visits make the steps that are due at their sites. -/
theorem Trail.madeFor {sites : List Site} {known last : Extraction} (h : Trail sites known last) :
    ∃ steps, last.steps = known.steps ++ steps ∧
      List.Forall₂ Step.MadeFor steps (census known.functions sites) := by
  induction h with
  | nil known => exact ⟨[], (List.append_nil _).symm, .nil⟩
  | @cons site rest known last ancestry _ ih =>
      obtain ⟨later, hlater, hmadeLater⟩ := ih
      obtain ⟨steps, dues, hsteps, hcensus, hmade⟩ := known.visit_eq ancestry site rest
      refine ⟨steps ++ later, ?_, ?_⟩
      · rw [hlater, hsteps, List.append_assoc]
      · rw [hcensus]
        exact List.rel_append hmade hmadeLater

/-- **No step is lost or made twice.**  The steps of a program without default
values in its patterns are those of the nodes that deserve one, one for each,
in the order of the text. -/
theorem steps_extract (program : Program) (h : NoDefaults program.sites) :
    List.Forall₂ Step.MadeFor (extract program).steps (census .empty program.sites) := by
  obtain ⟨visited, -, hall, htrail⟩ := walked_extract program
  rw [hall h] at htrail
  obtain ⟨steps, hsteps, hmade⟩ := htrail.madeFor
  rw [hsteps]
  exact hmade

/-- A function is declared and called; the call within an await is that of a
timer, and the call of a function that is not known makes no step. -/
theorem steps_extract_calls :
    let span := Span.zero
    let call (name : String) (args : List Expr) := Expr.call (.ident name span) args span
    let program : Program :=
      { body :=
          [.functionDecl "f" [.ident "x" span] false (.block [.emptyStmt span] span) span,
            .ifStmt (call "f" [call "g" []])
              (.exprStmt (.await (call "setTimeout" [.ident "f" span]) span) span) none span]
        span }
    NoDefaults program.sites ∧ (extract program).steps.length = 5 ∧
      List.Forall₂ Step.MadeFor (extract program).steps (census .empty program.sites) := by
  intro span call program
  have hnone : NoDefaults program.sites := by decide +kernel
  have hsteps := steps_extract program hnone
  refine ⟨hnone, ?_, hsteps⟩
  rw [hsteps.length_eq]
  decide +kernel

end EventLoop
