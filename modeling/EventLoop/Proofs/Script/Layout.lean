import EventLoop.Proofs.Peg.Derivation
import EventLoop.Proofs.Script.Tree

/-!
# Skipping layout

Layout is skipped at once: where skipping ends there is no more of it
(`skipLayout_skipLayout`).
-/

namespace EventLoop.Script

open Peg

/-- Where skipping ends there is no more layout, unless it is the start of a comment that is
never closed. -/
theorem skipLayout_skipFrom (skipping : Skipping) (offset : Nat) (text : List Char) :
    skipping = .blockComment (skipFrom skipping offset text) ∨
      skipLayout (skipFrom skipping offset text) = skipFrom skipping offset text := by
  fun_induction skipFrom skipping offset text with
  | case1 start => exact .inl rfl
  | case2 skipping offset hskipping => exact .inr rfl
  | case3 offset rest ih => exact .inr (ih.resolve_left (by simp))
  | case4 offset rest ih =>
      refine .inr (ih.elim (fun hopen => ?_) id)
      rw [← Skipping.blockComment.inj hopen]
      change skipFrom .blanks offset ('/' :: '*' :: rest) = _
      rw [skipFrom]
      exact (Skipping.blockComment.inj hopen).symm
  | case5 offset c rest _ _ _ ih => exact .inr (ih.resolve_left (by simp))
  | case6 offset c rest hline hblock hblank =>
      refine .inr ?_
      change skipFrom .blanks offset (c :: rest) = _
      rw [skipFrom, if_neg hblank]
      · exact hline
      · exact hblock
  | case7 offset c rest ih =>
      refine .inr (ih.resolve_left fun hopen => ?_)
      split at hopen <;> contradiction
  | case8 start offset rest ih => exact .inr (ih.resolve_left (by simp))
  | case9 start offset c rest _ ih => exact ih

/-- Behind layout there is no more layout. -/
@[simp]
theorem skipLayout_skipLayout (place : Cursor) : skipLayout (skipLayout place) = skipLayout place :=
  (skipLayout_skipFrom .blanks place.offset place.rest).resolve_left nofun

theorem skipLayout_space (offset : Nat) (rest : List Char) :
    skipLayout ⟨offset, ' ' :: rest⟩ = skipLayout ⟨offset + 1, rest⟩ := by
  change skipFrom .blanks offset (' ' :: rest) = _
  rw [skipFrom]
  · rfl
  · rintro rest ⟨⟩
  · rintro rest ⟨⟩

/-- A character that neither is blank nor starts a comment is no layout. -/
theorem skipLayout_of_ne {offset : Nat} {c : Char} {rest : List Char}
    (hblank : isLayoutBlank c = false) (hslash : c ≠ '/') :
    skipLayout ⟨offset, c :: rest⟩ = ⟨offset, c :: rest⟩ := by
  change skipFrom .blanks offset (c :: rest) = _
  rw [skipFrom, if_neg (Bool.eq_false_iff.1 hblank)]
  · rintro rest rfl
    exact absurd rfl hslash
  · rintro rest rfl
    exact absurd rfl hslash

theorem skip_skip (mode : Mode) (place : Cursor) :
    grammar.skip mode (grammar.skip mode place) = grammar.skip mode place := by
  unfold Grammar.skip
  split
  · exact skipLayout_skipLayout place
  · rfl

/-- One expression after the other, where the layout between them ends at a place. -/
theorem matches_seq {e f : Peg.Expr Rule} {place middle : Cursor} {first second : Match Rule}
    (h : Matches grammar .spaced e place first) (hskip : skipLayout first.stop = middle)
    (hrest : Matches grammar .spaced f middle second) :
    Matches grammar .spaced (.seq e f) place (second.after first.trees) := by
  subst hskip
  exact .seq h hrest

end EventLoop.Script
