import EventLoop.Proofs.Script.LeadingLines
import EventLoop.Proofs.Script.PartShift

/-!
# Scripts behind silent lines

A tree that is moved stands for the part that it stood for, moved in the same way
(`Part.ofTree_shift`).  So a script behind silent lines is the same program with spans that are
moved (`parse_behind`), and a text that is no script is none behind silent lines, where it
fails as many lines further down (`parse_error_behind`).
-/

namespace EventLoop.Script

open Peg

/-! ## Trees -/

section Trees

variable {d : Shift} {map later : LineMap}

mutual

/-- A tree that is moved has the meaning of the tree, moved in the same way. -/
theorem Part.ofTree_shift (hspan : ∀ start stop : Nat,
      later.span (start + d.bytes) (stop + d.bytes) = (map.span start stop).shift d)
    (tree : Peg.Tree Rule) :
    Part.ofTree later (tree.shift d.bytes) = moved d (Part.shift d) (Part.ofTree map tree) := by
  match tree with
  | .node rule start stop children =>
      rw [Peg.Tree.shift, Part.ofTree, Part.ofTree]
      refine bind_moved (Part.ofTrees_shift hspan children) fun parts => ?_
      dsimp only [Cursor.shift_offset]
      rw [hspan]
      exact bind_moved (assemble_shift d rule ⟨rule, start, stop, _, .token⟩ parts)
        fun meaning => rfl

theorem Part.ofTrees_shift (hspan : ∀ start stop : Nat,
      later.span (start + d.bytes) (stop + d.bytes) = (map.span start stop).shift d)
    (trees : List (Peg.Tree Rule)) :
    Part.ofTrees later (Peg.Tree.shiftAll d.bytes trees) =
      moved d (List.map (Part.shift d)) (Part.ofTrees map trees) := by
  match trees with
  | [] => rfl
  | tree :: rest =>
      exact bind_moved (Part.ofTree_shift hspan tree) fun part =>
        bind_moved (Part.ofTrees_shift hspan rest) fun parts => rfl

end

end Trees

/-! ## Texts -/

section Texts

variable {before : List Char} (h : Silent before) {source later : String}
  (hlater : later.toList = before ++ source.toList)

include h hlater

/-- A script behind silent lines is the same program, further on. -/
theorem parse_behind {program : Program} (hparse : parse source = .ok program) :
    ∃ further, parse later = .ok further ∧
      further.body = shiftStmts (.behind before) program.body := by
  cases hmatch : match? source.toList with
  | failure attempts =>
      rw [parse_eq_error hmatch] at hparse
      contradiction
  | success attempts stop trees =>
      -- the later match has the moved tree, of which the earlier one is known to have a meaning
      obtain ⟨others, children, rfl, hmatchLater⟩ := match?_success h hmatch
      obtain ⟨_, heq, hgrown⟩ := exists_tree hmatch
      obtain rfl := (Peg.Tree.node.inj (List.cons.inj heq).1).2.2.2
      obtain ⟨parts, hparts, -⟩ := exists_ofTrees children hgrown.children
      obtain rfl := Except.ok.inj ((parse_eq hmatch hparts).symm.trans hparse)
      have hpartsLater := Part.ofTrees_shift
        (LineMap.span_shift h.endsLine source.toList) children
      rw [hparts, ← hlater] at hpartsLater
      rw [← hlater] at hmatchLater
      refine ⟨_, parse_eq hmatchLater hpartsLater, stmtsOf_shift _ parts⟩

/-- A text that is no script is none behind silent lines, and fails as many lines further down
as there are. -/
theorem parse_error_behind {error : ParseError} (hparse : parse source = .error error) :
    ∃ further, parse later = .error further ∧
      further.span.line = error.span.line + (Shift.behind before).lines := by
  cases hmatch : match? source.toList with
  | success attempts stop trees =>
      obtain ⟨children, rfl, hgrown⟩ := exists_tree hmatch
      obtain ⟨parts, hparts, -⟩ := exists_ofTrees children hgrown.children
      rw [parse_eq hmatch hparts] at hparse
      contradiction
  | failure attempts =>
      obtain rfl := Except.error.inj ((parse_eq_error hmatch).symm.trans hparse)
      obtain ⟨others, hmatchLater, hoffset⟩ := match?_failure h hmatch
      rw [← hlater] at hmatchLater
      refine ⟨_, parse_eq_error hmatchLater, ?_⟩
      have hplace := LineMap.lineColumn_shift h.endsLine source.toList attempts.offset
      rw [← hoffset, ← hlater] at hplace
      unfold ParseError.ofAttempts
      rw [hplace]
      exact Nat.add_right_comm _ _ _

end Texts

end EventLoop.Script
