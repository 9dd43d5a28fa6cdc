import EventLoop.Peg.Match
import EventLoop.Proofs.Source.Place

/-!
# The shape of trees

A tree is well-formed (`Tree.Formed`) if its children follow each other in its
stretch of the text, and their rules are written as the body of its own rule
says (`Labels`).  Nothing is said of the rules inside a token.

`inOrder` reads off the body of a rule in which order the rules of children can
stand.  It is computed, so that it can be decided for each rule of a grammar.
-/

namespace EventLoop.Peg

variable {R : Type}

namespace Tree

/-- The rule of a tree. -/
def rule : Tree R → R
  | .node rule _ _ _ => rule

/-- The place where a tree starts. -/
def start : Tree R → Cursor
  | .node _ start _ _ => start

/-- The place behind a tree. -/
def stop : Tree R → Cursor
  | .node _ _ stop _ => stop

end Tree

/-! ## Trees in a row -/

/-- Trees stand one after the other between two places. -/
inductive Row : Cursor → List (Tree R) → Cursor → Prop where
  | nil {first last : Cursor} (h : first.Leads last) : Row first [] last
  | cons {first last : Cursor} {tree : Tree R} {rest : List (Tree R)}
      (hstart : first.Leads tree.start) (htree : tree.start.Leads tree.stop)
      (hrest : Row tree.stop rest last) : Row first (tree :: rest) last

namespace Row

variable {first middle last : Cursor} {trees others : List (Tree R)}

theorem leads (h : Row first trees last) : first.Leads last := by
  induction h with
  | nil h => exact h
  | cons hstart htree _ ih => exact hstart.trans (htree.trans ih)

/-- A row can start earlier. -/
theorem before (h : Row middle trees last) (hfirst : first.Leads middle) :
    Row first trees last := by
  cases h with
  | nil hlast => exact .nil (hfirst.trans hlast)
  | cons hstart htree hrest => exact .cons (hfirst.trans hstart) htree hrest

theorem append (h : Row first trees middle) (hothers : Row middle others last) :
    Row first (trees ++ others) last := by
  induction h with
  | nil hleads => exact hothers.before hleads
  | cons hstart htree _ ih => exact .cons hstart htree (ih hothers)

/-- A tree of a row stands behind the place where the row starts. -/
theorem leads_of_mem (h : Row first trees last) {tree : Tree R} (htree : tree ∈ trees) :
    first.Leads tree.start ∧ tree.start.Leads tree.stop := by
  induction h with
  | nil => contradiction
  | cons hstart hnext _ ih =>
      rcases List.mem_cons.1 htree with rfl | hrest
      · exact ⟨hstart, hnext⟩
      · obtain ⟨hbefore, hinside⟩ := ih hrest
        exact ⟨hstart.trans (hnext.trans hbefore), hinside⟩

end Row

/-! ## The rules of a row -/

section Labels

variable (grammar : Grammar R)

/-- The rules that an expression can record, in their order.  Nothing is said
of the rules that a hidden one records. -/
inductive Labels : Expr R → List R → Prop where
  | text (characters : List Char) : Labels (.text characters) []
  | char (accepts : Char → Bool) : Labels (.char accepts) []
  | endOfText : Labels .endOfText []
  | rule (r : R) : Labels (.rule r) [r]
  | hidden {r : R} (h : grammar.kind r = .hidden) (rules : List R) : Labels (.rule r) rules
  | seq {e f : Expr R} {rules others : List R} (h : Labels e rules) (hf : Labels f others) :
      Labels (.seq e f) (rules ++ others)
  | altLeft {e : Expr R} {rules : List R} (h : Labels e rules) (f : Expr R) :
      Labels (.alt e f) rules
  | altRight {f : Expr R} {rules : List R} (e : Expr R) (h : Labels f rules) :
      Labels (.alt e f) rules
  | absent (e : Expr R) : Labels (.optional e) []
  | present {e : Expr R} {rules : List R} (h : Labels e rules) : Labels (.optional e) rules
  | noMore (e : Expr R) : Labels (.many e) []
  | more {e : Expr R} {rules others : List R} (h : Labels e rules)
      (hrest : Labels (.many e) others) : Labels (.many e) (rules ++ others)
  | refused (e : Expr R) : Labels (.unless e) []

/-- A tree whose children, and theirs, stand in a row and have the rules that
the body of its rule records. -/
inductive Tree.Formed : Tree R → Prop where
  | node {rule : R} {start stop : Cursor} {children : List (Tree R)}
      (row : Row start children stop)
      (labels : grammar.kind rule ≠ .token →
        Labels grammar (grammar.body rule) (children.map Tree.rule))
      (formed : ∀ child ∈ children, Formed child) : Formed (.node rule start stop children)

end Labels

/-! ## Trees inside trees -/

mutual

/-- A tree and all trees inside it. -/
def Tree.nodes : Tree R → List (Tree R)
  | .node rule start stop children => .node rule start stop children :: nodesOf children

/-- Trees and all trees inside them. -/
def nodesOf : List (Tree R) → List (Tree R)
  | [] => []
  | tree :: trees => tree.nodes ++ nodesOf trees

end

theorem mem_nodesOf {node : Tree R} {trees : List (Tree R)} :
    node ∈ nodesOf trees ↔ ∃ tree ∈ trees, node ∈ tree.nodes := by
  induction trees with
  | nil => simp [nodesOf]
  | cons tree trees ih => simp [nodesOf, ih]

/-- A well-formed tree consists of well-formed trees, and none of them starts before
it. -/
theorem Tree.Formed.nodes {grammar : Grammar R} {tree : Tree R} (h : tree.Formed grammar)
    (hplace : tree.start.Leads tree.stop) :
    ∀ node ∈ tree.nodes, node.Formed grammar ∧ tree.start.Leads node.start ∧
      node.start.Leads node.stop := by
  induction h with
  | @node rule start stop children row labels formed ih =>
      intro node hnode
      rw [Tree.nodes] at hnode
      rcases List.mem_cons.1 hnode with rfl | hinside
      · exact ⟨.node row labels formed, .refl _, hplace⟩
      · obtain ⟨child, hchild, hnode⟩ := mem_nodesOf.1 hinside
        obtain ⟨hbefore, hstop⟩ := row.leads_of_mem hchild
        obtain ⟨hformed, hstart, hnode⟩ := ih child hchild hstop node hnode
        exact ⟨hformed, hbefore.trans hstart, hnode⟩

/-! ## The order of rules -/

namespace Expr

/-- The rules that an expression mentions where they are recorded. -/
def mentions : Expr R → List R
  | .text _ | .char _ | .endOfText | .unless _ => []
  | .rule r => [r]
  | .seq e f | .alt e f => e.mentions ++ f.mentions
  | .optional e | .many e => e.mentions

/-- Whether a relation holds between each rule that an expression records and
all those that it records behind it. -/
def inOrder (relation : R → R → Bool) : Expr R → Bool
  | .text _ | .char _ | .endOfText | .unless _ | .rule _ => true
  | .seq e f =>
    e.inOrder relation && f.inOrder relation &&
      e.mentions.all fun a => f.mentions.all fun b => relation a b
  | .alt e f => e.inOrder relation && f.inOrder relation
  | .optional e => e.inOrder relation
  | .many e =>
    e.inOrder relation && e.mentions.all fun a => e.mentions.all fun b => relation a b

/-- Whether an expression records all rules of one kind before those of
another one. -/
def puts (first second : R → Bool) (e : Expr R) : Bool :=
  e.inOrder (fun a b => !(second a && first b)) && e.mentions.all fun r => !(first r && second r)

end Expr

section Order

variable {grammar : Grammar R}

/-- What is recorded is mentioned. -/
theorem Labels.mem_mentions {e : Expr R} {rules : List R} (h : Labels grammar e rules)
    (hrecorded : ∀ r ∈ e.mentions, grammar.kind r ≠ .hidden) : ∀ r ∈ rules, r ∈ e.mentions := by
  induction h with
  | text | char | endOfText | absent | noMore | refused => simp
  | rule r => simp [Expr.mentions]
  | hidden h => exact absurd h (hrecorded _ (by simp [Expr.mentions]))
  | seq _ _ ih ihf =>
      simp only [Expr.mentions, List.forall_mem_append] at hrecorded
      intro r hr
      rcases List.mem_append.1 hr with hr | hr
      · exact List.mem_append_left _ (ih hrecorded.1 r hr)
      · exact List.mem_append_right _ (ihf hrecorded.2 r hr)
  | altLeft _ f ih =>
      simp only [Expr.mentions, List.forall_mem_append] at hrecorded
      exact fun r hr => List.mem_append_left _ (ih hrecorded.1 r hr)
  | altRight e _ ih =>
      simp only [Expr.mentions, List.forall_mem_append] at hrecorded
      exact fun r hr => List.mem_append_right _ (ih hrecorded.2 r hr)
  | present _ ih => exact ih hrecorded
  | more _ _ ih ihrest =>
      intro r hr
      rcases List.mem_append.1 hr with hr | hr
      · exact ih hrecorded r hr
      · exact ihrest hrecorded r hr

/-- The rules that an expression records stand in the order that is read off
the expression. -/
theorem Labels.pairwise {e : Expr R} {rules : List R} (h : Labels grammar e rules)
    (hrecorded : ∀ r ∈ e.mentions, grammar.kind r ≠ .hidden) {relation : R → R → Bool}
    (horder : e.inOrder relation = true) : rules.Pairwise fun a b => relation a b = true := by
  induction h with
  | text | char | endOfText | absent | noMore | refused => exact .nil
  | rule r => exact List.pairwise_singleton _ r
  | hidden h => exact absurd h (hrecorded _ (by simp [Expr.mentions]))
  | seq h hf ih ihf =>
      simp only [Expr.mentions, List.forall_mem_append] at hrecorded
      simp only [Expr.inOrder, Bool.and_eq_true, List.all_eq_true] at horder
      obtain ⟨⟨he, hforder⟩, hacross⟩ := horder
      refine List.pairwise_append.2 ⟨ih hrecorded.1 he, ihf hrecorded.2 hforder, ?_⟩
      intro a ha b hb
      exact hacross a (h.mem_mentions hrecorded.1 a ha) b (hf.mem_mentions hrecorded.2 b hb)
  | altLeft _ f ih =>
      simp only [Expr.mentions, List.forall_mem_append] at hrecorded
      simp only [Expr.inOrder, Bool.and_eq_true] at horder
      exact ih hrecorded.1 horder.1
  | altRight e _ ih =>
      simp only [Expr.mentions, List.forall_mem_append] at hrecorded
      simp only [Expr.inOrder, Bool.and_eq_true] at horder
      exact ih hrecorded.2 horder.2
  | present _ ih => exact ih hrecorded horder
  | more h hrest ih ihrest =>
      have hacross := horder
      simp only [Expr.inOrder, Bool.and_eq_true, List.all_eq_true] at hacross
      refine List.pairwise_append.2 ⟨ih hrecorded hacross.1, ihrest hrecorded horder, ?_⟩
      intro a ha b hb
      exact hacross.2 a (h.mem_mentions hrecorded a ha) b (hrest.mem_mentions hrecorded b hb)

/-- What is put before something else never stands behind it. -/
theorem Labels.pairwise_of_puts {first second : R → Bool} {e : Expr R} {rules : List R}
    (h : Labels grammar e rules) (hrecorded : ∀ r ∈ e.mentions, grammar.kind r ≠ .hidden)
    (hputs : e.puts first second = true) :
    rules.Pairwise (fun a b => second a = false ∨ first b = false) ∧
      ∀ r ∈ rules, first r = false ∨ second r = false := by
  simp only [Expr.puts, Bool.and_eq_true, List.all_eq_true] at hputs
  obtain ⟨horder, hdisjoint⟩ := hputs
  refine ⟨(h.pairwise hrecorded horder).imp fun hab => by simpa using hab, fun r hr => ?_⟩
  simpa using hdisjoint r (h.mem_mentions hrecorded r hr)

/-- An expression that starts with a rule records that rule first, and then what
is behind it. -/
theorem Labels.seq_rule {r : R} {e : Expr R} {rules : List R}
    (h : Labels grammar (.seq (.rule r) e) rules) (hrecorded : grammar.kind r ≠ .hidden) :
    ∃ rest, rules = r :: rest ∧ Labels grammar e rest := by
  cases h with
  | seq h hrest =>
      cases h with
      | rule => exact ⟨_, rfl, hrest⟩
      | hidden h => exact absurd h hrecorded

theorem Labels.starts {r : R} {e : Expr R} {rules : List R}
    (h : Labels grammar (.seq (.rule r) e) rules) (hrecorded : grammar.kind r ≠ .hidden) :
    ∃ rest, rules = r :: rest := by
  obtain ⟨rest, hrules, -⟩ := h.seq_rule hrecorded
  exact ⟨rest, hrules⟩

end Order

end EventLoop.Peg
