import EventLoop.Proofs.Script.Reading
import EventLoop.Script.Placement

/-!
# No part is misplaced

The roles of the parts of a rule are a machine that reads one part after the other.  The
bodies of all rules are run through it (`allows_body`), so that what a rule records is
never misplaced, at whatever place and however often something is repeated.  The only
check that is about the text of a part concerns the word that a declaration starts with,
and the grammar has the same three words (`declKind_of_derived`).
-/

namespace EventLoop.Script

open Peg

/-- The roles of the parts behind a part, unless that is misplaced. -/
def Roles.step (roles : Roles) (rule : Rule) : Option Roles :=
  (roles.read rule).toOption

/-- All that a rule can record is what its parts are read as. -/
theorem allows_body : ∀ rule : Rule, kind rule ≠ .token → kind rule ≠ .hidden →
    (body rule).allows Roles.step (fun _ => true) (rolesOf rule) = true := by
  intro rule
  cases rule <;> decide

/-- A condition comes before what depends on it. -/
example : (rolesOf .ifStmt).read .statement = .error (.expression []) := rfl

/-- Parts that can be read one after the other are not misplaced. -/
theorem checkParts_eq_ok (map : LineMap) (whole : Span) {children : List (Peg.Tree Rule)} :
    ∀ {roles last : Roles} (place : Nat),
      (children.map Peg.Tree.rule).foldlM Roles.step roles = some last →
      checkParts map whole roles place children = .ok () := by
  induction children with
  | nil => exact fun _ _ => rfl
  | cons child rest ih =>
      intro roles last place h
      obtain ⟨rule, start, stop, inside⟩ := child
      rw [List.map_cons, List.foldlM_cons] at h
      obtain ⟨behind, hbehind, hlast⟩ := Option.bind_eq_some_iff.1 h
      rw [checkParts]
      cases hread : roles.read rule with
      | error role =>
          rw [Roles.step, Peg.Tree.rule, hread] at hbehind
          contradiction
      | ok other =>
          rw [Roles.step, Peg.Tree.rule, hread] at hbehind
          obtain rfl := Option.some.inj hbehind
          exact ih (place + 1) hlast

/-- The word that a declaration starts with. -/
theorem declKind_of_derived {start stop : Cursor} {children : List (Peg.Tree Rule)}
    (h : Tree.Derived grammar (.node .declKind start stop children)) :
    String.ofList (start.textTo stop) ∈ declKeywords := by
  have hspells := spells_of_wordEnd (spells_of_derived rfl rfl h)
  simp only [List.map, oneOf, literal, Expr.spells_alt, Expr.spells_text] at hspells
  rcases hspells with hword | hword | hword <;> rw [hword] <;> decide

theorem checkKind_eq_ok {rule : Rule} {start stop : Cursor} {children : List (Peg.Tree Rule)}
    (h : Tree.Derived grammar (.node rule start stop children)) (span : Span) :
    checkKind rule (String.ofList (start.textTo stop)) span = .ok () := by
  refine if_neg ?_
  rintro ⟨rfl, htoken⟩
  exact htoken (declKind_of_derived h)

variable {text : List Char}

mutual

/-- In a tree that the grammar gives no part is misplaced. -/
theorem checkTree_eq_ok (map : LineMap) (tree : Peg.Tree Rule) (hgrown : Grown text tree) :
    checkTree map tree = .ok () := by
  match tree with
  | .node rule start stop children =>
      have hparts : checkParts map (map.span start.offset stop.offset) (rolesOf rule) 0 children =
          .ok () := by
        by_cases htoken : kind rule = .token
        · rw [children_eq_nil hgrown.derived htoken]
          rfl
        · have hhidden : kind rule ≠ .hidden := by
            cases hgrown.derived with
            | node _ hkind => exact hkind
          cases hgrown.formed with
          | node _ labels _ =>
              obtain ⟨last, hlast, -⟩ := (labels htoken).exists_state
                (kind_mentions_ne rule htoken hhidden) (allows_body rule htoken hhidden)
              exact checkParts_eq_ok map _ 0 hlast
      rw [checkTree, checkKind_eq_ok hgrown.derived, hparts]
      exact checkTrees_eq_ok map children hgrown.children

theorem checkTrees_eq_ok (map : LineMap) (trees : List (Peg.Tree Rule))
    (hgrown : ∀ tree ∈ trees, Grown text tree) : checkTrees map trees = .ok () := by
  match trees with
  | [] => rfl
  | tree :: rest =>
      obtain ⟨htree, hrest⟩ := List.forall_mem_cons.1 hgrown
      rw [checkTrees, checkTree_eq_ok map tree htree]
      exact checkTrees_eq_ok map rest hrest

end

end EventLoop.Script
