import EventLoop.Proofs.Peg.Progress
import EventLoop.Proofs.Peg.Record
import Mathlib.Algebra.GroupWithZero.Nat

/-!
# Counting a character

A match reads a character at least as often as it stands in the texts of the trees that it records,
and once more for each time that the expression spells it out (`Expr.spelled`).  So the same is true
of a tree and its children (`Tree.Derived.count_le`).
-/

namespace EventLoop

/-- How often a character stands behind a place. -/
def Cursor.count (c : Char) (cursor : Cursor) : Nat :=
  cursor.rest.count c

theorem Cursor.Leads.count_le {cursor later : Cursor} (h : cursor.Leads later) (c : Char) :
    later.count c ≤ cursor.count c := by
  obtain ⟨read, hrest, -⟩ := h
  rw [Cursor.count, Cursor.count, hrest, List.count_append]
  exact Nat.le_add_left _ _

namespace Peg

variable {R : Type} {grammar : Grammar R} {c : Char}

/-- How often a character stands in the text of a tree. -/
def Tree.count (c : Char) (tree : Tree R) : Nat :=
  tree.start.count c - tree.stop.count c

/-- How often an expression spells a character out wherever it matches. -/
def Expr.spelled (c : Char) : Expr R → Nat
  | .text characters => characters.count c
  | .seq e f => e.spelled c + f.spelled c
  | .alt e f => min (e.spelled c) (f.spelled c)
  | .char _ | .endOfText | .rule _ | .optional _ | .many _ | .unless _ => 0

/-- What a match reads has a character as often as its trees, and as it is spelled out. -/
theorem Matches.count_le (hskips : grammar.Skips) {mode : Mode} {e : Expr R} {cursor : Cursor}
    {result : Match R} (h : Matches grammar mode e cursor result) :
    e.spelled c + (result.trees.map (Tree.count c)).sum + result.stop.count c ≤
      cursor.count c := by
  induction h with
  | @text _ characters cursor stop h =>
      obtain ⟨hrest, -⟩ := Cursor.drop?_eq_some_iff.1 h
      rw [Cursor.count, Cursor.count, hrest, List.count_append]
      exact Nat.le_refl _
  | char h =>
      rw [Expr.spelled, List.map_nil, List.sum_nil, Nat.zero_add, Nat.zero_add]
      exact (Cursor.Leads.of_next? h).count_le c
  | endOfText | absent | noMore | «unless» =>
      simp only [Expr.spelled, List.map_nil, List.sum_nil, Nat.zero_add, Nat.le_refl]
  | @rule mode r cursor result _ ih =>
      unfold Grammar.record
      split
      · rw [Expr.spelled]
        omega
      · simp only [Expr.spelled, List.map_cons, List.map_nil, List.sum_cons, List.sum_nil,
          Tree.count, Tree.start, Tree.stop]
        omega
  | @seq mode e f cursor first second _ _ ih ihrest =>
      have hgap := (hskips.skip mode first.stop).count_le c
      simp only [Expr.spelled, Match.after, List.map_append, List.sum_append]
      omega
  | altFirst _ _ ih | altSecond _ _ ih =>
      rw [Expr.spelled]
      omega
  | present _ ih | last _ _ ih =>
      rw [Expr.spelled]
      omega
  | @more mode e cursor first second rest _ _ _ ih _ ihrest =>
      have hgap := (hskips.skip mode first.stop).count_le c
      simp only [Expr.spelled, Match.after, List.map_append, List.sum_append] at ihrest ⊢
      omega

/-- The text of a tree has a character as often as its children, and as its rule spells it out. -/
theorem Tree.Derived.count_le (hskips : grammar.Skips) {rule : R} {start stop : Cursor}
    {children : List (Tree R)} (h : Tree.Derived grammar (.node rule start stop children)) :
    (grammar.body rule).spelled c + (children.map (Tree.count c)).sum ≤
      Tree.count c (.node rule start stop children) := by
  cases h with
  | node _ _ _ hbody _ =>
      have hcount := hbody.count_le hskips (c := c)
      exact Nat.le_sub_of_add_le hcount

end Peg

end EventLoop
