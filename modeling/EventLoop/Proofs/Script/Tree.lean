import EventLoop.Proofs.Peg.Record
import EventLoop.Proofs.Peg.Soundness
import EventLoop.Script.Grammar

/-!
# Trees of scripts

A script that matches the grammar gives one well-formed tree
(`formed_of_match`), because layout is skipped by reading on.  Raw text is the
only thing that is matched without being recorded, and it stands inside tokens,
so that the children of every other tree are what the body of its rule mentions.
-/

namespace EventLoop.Script

open Peg

/-- Skipping reads on from any place that came before, such as the start of a
comment that is never closed. -/
theorem leads_skipFrom {origin : Cursor} (skipping : Skipping) (offset : Nat) (text : List Char)
    (h : origin.Leads ⟨offset, text⟩)
    (hcomment : ∀ start, skipping = .blockComment start → origin.Leads start) :
    origin.Leads (skipFrom skipping offset text) := by
  fun_induction skipFrom skipping offset text with
  | case1 start => exact hcomment start rfl
  | case2 => exact h
  | case3 offset rest ih => exact ih (h.trans ⟨['/', '/'], rfl, rfl⟩) nofun
  | case4 offset rest ih =>
      refine ih (h.trans ⟨['/', '*'], rfl, rfl⟩) fun start hstart => ?_
      rwa [← Skipping.blockComment.inj hstart]
  | case5 offset c rest _ _ _ ih => exact ih (h.trans (.char offset c rest)) nofun
  | case6 => exact h
  | case7 offset c rest ih =>
      refine ih (h.trans (.char offset c rest)) fun start hstart => ?_
      split at hstart <;> contradiction
  | case8 start offset rest ih => exact ih (h.trans ⟨['*', '/'], rfl, rfl⟩) nofun
  | case9 start offset c rest _ ih => exact ih (h.trans (.char offset c rest)) hcomment

theorem skips_grammar : grammar.Skips :=
  fun cursor => leads_skipFrom .blanks cursor.offset cursor.rest (.refl cursor) nofun

/-! ## Children -/

/-- Only tokens and raw text consist of text that is not recorded. -/
theorem kind_mentions_ne : ∀ rule : Rule, kind rule ≠ .token → kind rule ≠ .hidden →
    ∀ r ∈ (body rule).mentions, kind r ≠ .hidden := by
  intro rule
  cases rule <;> decide

/-- Plain rules are only used where there may be layout. -/
theorem separates_grammar : grammar.Separates := by
  intro rule
  cases rule <;> decide

/-- Nothing is recorded inside a token. -/
theorem children_eq_nil {rule : Rule} {start stop : Cursor} {children : List (Peg.Tree Rule)}
    (h : Tree.Derived grammar (.node rule start stop children)) (htoken : kind rule = .token) :
    children = [] := by
  have hquiet : ∀ r, (kind r).isQuiet = true →
      ∀ used ∈ (body r).mentions, (kind used).isQuiet = true := by
    intro r
    cases r <;> decide
  cases h with
  | @node mode _ _ _ _ _ _ _ hbody _ =>
      have hmode : (grammar.kind rule).modeIn mode = .token := by
        change (kind rule).modeIn mode = .token
        rw [htoken]
        rfl
      rw [hmode] at hbody
      exact hbody.trees_eq_nil hquiet (hquiet rule (by rw [htoken]; rfl))

end EventLoop.Script
