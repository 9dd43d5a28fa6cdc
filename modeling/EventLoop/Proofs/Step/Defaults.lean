import EventLoop.Proofs.Step.Census

/-!
# Default values that are passed over

A walk looks into the default values in the targets of declarators, and from
there into all that they contain.  It looks into no others: the patterns of
parameters, and those of the variables of loops, are passed over with all their
default values (`steps_lookedAt`).  So a request in the default value of a
parameter, which is a site like any other one and deserves a step, gets none
(`default_of_parameter_missed`).
-/

namespace EventLoop

open Script

/-- **What is looked at makes steps, and nothing else does.**  The steps of a
program are those of the nodes that deserve one, one for each, in the order of
the text, among the sites that are not in the default values of parameters and
loop variables. -/
theorem steps_lookedAt (program : Program) :
    List.Forall₂ Step.MadeFor (extract program).steps
      (census .empty (lookedAt 0 program.sites)) := by
  obtain ⟨steps, hsteps, hmade⟩ := (trail_extract program).madeFor
  rw [hsteps]
  exact hmade

/-- Not every site that deserves a step gets one: in `function f(a = fetch()) {}`
the request deserves one, and the function is the only step. -/
theorem default_of_parameter_missed :
    ¬ ∀ program : Program,
      List.Forall₂ Step.MadeFor (extract program).steps (census .empty program.sites) := by
  intro hall
  let span := Span.zero
  let request := Expr.call (.ident "fetch" span) [] span
  let program : Program :=
    { body :=
        [.functionDecl "f" [.withDefault (.ident "a" span) request span] false (.block [] span)
          span]
      span }
  have hlength := (hall program).length_eq
  have hsteps : (extract program).steps.length = 1 := by decide +kernel
  have hdue : (census .empty program.sites).length = 2 := by decide +kernel
  rw [hsteps, hdue] at hlength
  contradiction

end EventLoop
