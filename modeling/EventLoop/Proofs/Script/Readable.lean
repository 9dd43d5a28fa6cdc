import EventLoop.Proofs.Script.Literal
import EventLoop.Proofs.Script.Placement
import EventLoop.Proofs.Script.Totality

/-!
# What matches the grammar is a program

Every tree that the grammar gives for a text has a meaning (`exists_ofTree`), by the
structure of the tree: no part of it is misplaced and none is missing.  Its text is a
stretch of the text that is read.  So a text is refused by the grammar, or it is a
program (`parse_total`).
-/

namespace EventLoop.Script

open Peg

/-! ## Numbers -/

/-- The text of a number token is a number. -/
theorem isSome_numberValue?_of_derived {start stop : Cursor} {children : List (Peg.Tree Rule)}
    (h : Tree.Derived grammar (.node .number start stop children)) :
    (numberValue? (start.textTo stop)).isSome = true :=
  isSome_numberValue? (spells_of_wordEnd (spells_of_derived rfl rfl h))

/-! ## Trees with their meanings -/

variable {text : List Char}

mutual

/-- Every tree that the grammar gives has a meaning. -/
theorem exists_ofTree (tree : Peg.Tree Rule) (hgrown : Grown text tree) :
    ∃ part, Part.ofTree (.ofText text) tree = .ok part ∧ part.Named := by
  match tree with
  | .node rule start stop children =>
      obtain ⟨parts, hparts, hnamed⟩ := exists_ofTrees children hgrown.children
      have hstanding := (fits_ofTrees children hgrown.children hparts).standing hgrown
      obtain ⟨meaning, hmeaning⟩ := hstanding.succeeds_assemble
        (by rintro rfl; exact isSome_numberValue?_of_derived hgrown.derived) hnamed
      refine ⟨_, ?_, named_assemble hmeaning⟩
      rw [Part.ofTree, hparts]
      dsimp only [bind, Except.bind]
      rw [hmeaning]
      rfl

theorem exists_ofTrees (trees : List (Peg.Tree Rule)) (hgrown : ∀ tree ∈ trees, Grown text tree) :
    ∃ parts, Part.ofTrees (.ofText text) trees = .ok parts ∧ ∀ part ∈ parts, part.Named := by
  match trees with
  | [] => exact ⟨[], rfl, List.forall_mem_nil _⟩
  | tree :: rest =>
      obtain ⟨htree, hrest⟩ := List.forall_mem_cons.1 hgrown
      obtain ⟨part, hpart, hnamed⟩ := exists_ofTree tree htree
      obtain ⟨parts, hparts, hnamedRest⟩ := exists_ofTrees rest hrest
      refine ⟨part :: parts, ?_, List.forall_mem_cons.2 ⟨hnamed, hnamedRest⟩⟩
      rw [Part.ofTrees, hpart, hparts]
      rfl

end

/-! ## Texts -/

/-- The program of a text whose tree has parts. -/
theorem parse_eq {source : String} {attempts : Attempts Rule} {stop : Cursor}
    {children : List (Peg.Tree Rule)} {parts : List Part}
    (hmatch : match? source.toList =
      .success attempts stop [.node .program (.start source.toList) stop children])
    (hparts : Part.ofTrees (.ofText source.toList) children = .ok parts) :
    parse source =
      .ok ⟨stmtsOf parts, (LineMap.ofText source.toList).span 0 stop.offset⟩ := by
  have hgrown : Grown source.toList (.node .program (.start source.toList) stop children) := by
    obtain ⟨_, htree, hgrown⟩ := exists_tree hmatch
    rwa [(List.cons.inj htree).1]
  unfold parse
  dsimp only
  rw [hmatch]
  dsimp only
  rw [readProgram, checkTree_eq_ok _ _ hgrown, hparts]
  rfl

theorem parse_eq_error {source : String} {attempts : Attempts Rule}
    (hmatch : match? source.toList = .failure attempts) :
    parse source = .error (.ofAttempts (.ofText source.toList) attempts) := by
  unfold parse
  dsimp only
  rw [hmatch]

/-- **A text is refused by the grammar or is a program.**  No text is refused because of
its tree: no part is missing or misplaced there, and no number is unreadable.  In a
program every node of the tree consists of what the grammar says of its rule, and stands
for a stretch of the text. -/
theorem parse_total (source : String) :
    (∃ attempts, match? source.toList = .failure attempts ∧
        parse source = .error (.ofAttempts (.ofText source.toList) attempts)) ∨
      ∃ attempts stop tree program, match? source.toList = .success attempts stop [tree] ∧
        parse source = .ok program ∧
        ∀ node ∈ tree.nodes, node.Formed grammar ∧
          ∃ before after, source.toList = before ++ node.start.textTo node.stop ++ after ∧
            node.start.offset = byteLength before ∧
            node.stop.offset = node.start.offset + byteLength (node.start.textTo node.stop) := by
  cases hmatch : match? source.toList with
  | failure attempts =>
      exact .inl ⟨attempts, rfl, parse_eq_error hmatch⟩
  | success attempts stop trees =>
      obtain ⟨children, rfl, hgrown⟩ := exists_tree hmatch
      obtain ⟨parts, hparts, -⟩ := exists_ofTrees children hgrown.children
      refine .inr ⟨attempts, stop, _, _, rfl, parse_eq hmatch hparts, fun node hnode => ?_⟩
      obtain ⟨hnodeFormed, ⟨before, hbefore, hstart⟩, inside, hinside, hstop⟩ :=
        hgrown.formed.nodes hgrown.inside node hnode
      have htext := Cursor.textTo_eq hinside hstop
      refine ⟨hnodeFormed, before, node.stop.rest, ?_, ?_, ?_⟩
      · rw [htext, List.append_assoc, ← hinside]
        exact hbefore
      · rw [hstart]
        exact Nat.zero_add _
      · rw [htext]
        exact hstop

end EventLoop.Script
