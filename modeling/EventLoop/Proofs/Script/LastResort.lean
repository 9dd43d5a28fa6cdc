import EventLoop.Proofs.Script.RawLine

/-!
# Statements that are not supported

Raw text is the last resort: it is only read where no other rule for statements
accepts what stands there (`unsupported_of_derived`).  A rule may accept less than the
line that it starts on, and then raw text starts behind it.  The one guard against this
is that of a declaration, which is refused where an equals sign follows without a value
(`guarded_of_derived`).
-/

namespace EventLoop.Script

open Peg

/-- The rules for statements that are tried before that for raw text. -/
def supportedRules : List Rule :=
  [.block, .emptyStmt, .functionDecl, .declareStmt, .ifStmt, .switchStmt, .classDecl, .forLoopStmt,
   .forStmt, .whileStmt, .doWhileStmt, .returnStmt, .throwStmt, .breakStmt, .continueStmt,
   .tryStmt, .labeledStmt, .exprStmt]

/-- The rules for statements. -/
def statementRules : List Rule :=
  supportedRules ++ [.unknownStmt]

/-- No rule for statements accepts what stands at a place, but that for raw text. -/
def Unsupported (place : Cursor) : Prop :=
  ∀ r ∈ supportedRules, Derives grammar .spaced (.rule r) place none

/-- Raw text is only read where a statement is read that is not supported. -/
theorem unsupported_of_derived {rule : Rule} {start stop : Cursor}
    {children : List (Peg.Tree Rule)}
    (hformed : Tree.Formed grammar (.node rule start stop children))
    (h : Tree.Derived grammar (.node rule start stop children)) :
    ∀ child ∈ children, child.rule = .unknownStmt → Unsupported child.start := by
  intro child hchild hrule
  have hderived := h
  cases hformed with
  | node _ labels _ =>
      cases h with
      | @node mode _ _ _ _ hmode hkind hspaced hbody _ =>
          have htoken : kind rule ≠ .token := by
            intro htoken
            rw [children_eq_nil hderived htoken] at hchild
            contradiction
          have hmentioned : Rule.unknownStmt ∈ (body rule).mentions := by
            refine (labels htoken).mem_mentions (kind_mentions_ne rule htoken hkind) _ ?_
            rw [← hrule]
            exact List.mem_map_of_mem hchild
          obtain rfl : rule = .statement := by
            revert hmentioned
            cases rule <;> decide
          obtain rfl : mode = .spaced := hspaced rfl
          have hchoice : Matches grammar .spaced
              (oneOf (supportedRules.map .rule ++ [.rule .unknownStmt])) start ⟨stop, children⟩ :=
            hbody
          have hsupported : ∀ r ∈ supportedRules, kind r ≠ .hidden ∧ r ≠ .unknownStmt := by decide
          rcases hchoice.of_oneOf_last with ⟨other, hother, hmatches⟩ | ⟨hothers, hlast⟩
          · obtain ⟨r, hr, rfl⟩ := List.mem_map.1 hother
            obtain ⟨hrecorded, hne⟩ := hsupported r hr
            obtain ⟨inner, -, hresult⟩ := hmatches.of_recorded hrecorded hmode
            obtain ⟨-, rfl⟩ := Match.mk.inj hresult
            obtain rfl := List.mem_singleton.1 hchild
            exact absurd hrule hne
          · obtain ⟨inner, -, hresult⟩ := hlast.of_recorded (by decide) hmode
            obtain ⟨-, rfl⟩ := Match.mk.inj hresult
            obtain rfl := List.mem_singleton.1 hchild
            exact fun r hr => hothers _ (List.mem_map_of_mem hr)

/-- What is declared has a value, or no equals sign follows. -/
theorem guarded_of_derived {start stop : Cursor} {children : List (Peg.Tree Rule)}
    (h : Tree.Derived grammar (.node .declarator start stop children)) :
    Rule.assignExpr ∈ children.map Tree.rule ∨ stop.rest.head? ≠ some '=' := by
  cases h with
  | @node mode _ _ _ _ hmode _ hspaced hbody _ =>
      obtain rfl : mode = .spaced := hspaced rfl
      obtain ⟨target, value, -, hvalue, hresult⟩ := hbody.of_seq
      obtain ⟨rfl, rfl⟩ := Match.mk.inj hresult
      cases hvalue with
      | altFirst _ hvalue =>
          obtain ⟨sign, expr, -, hexpr, rfl⟩ := hvalue.of_seq
          obtain ⟨inner, -, rfl⟩ := hexpr.of_recorded (by decide) hmode
          exact .inl (by simp [Match.after, Tree.rule])
      | altSecond _ hvalue =>
          generalize hplace : grammar.skip _ target.stop = place at hvalue
          cases hvalue with
          | «unless» hrefused =>
              refine .inr fun hhead => ?_
              obtain ⟨offset, rest⟩ := place
              obtain ⟨behind, rfl⟩ := List.head?_eq_some_iff.1 hhead
              exact Option.some_ne_none _ hrefused.of_text_none

end EventLoop.Script
