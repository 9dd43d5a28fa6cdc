import EventLoop.Proofs.Script.Reading
import EventLoop.Proofs.Step.Sites

/-!
# Sites in the order of the text

The step of a site gets the line on which its span starts (`Site.span`).  A list
of sites is `Spread` between two offsets if their spans start there one after
the other, each on the line on which its start stands.

The sites of a phrase are the phrase itself, unless it is no site, and behind it those of
its children (`Phrase.sites_eq`).  The children of a sound phrase stand in it in a row, so
that its sites are spread where the phrase stands, and those of a program in its text
(`spread_parse`).
-/

namespace EventLoop

open Script

/-- The span that tells the line of the step of a site.  An expression
statement has the line of its expression. -/
def Site.span : Site → Span
  | .stmt (.exprStmt e _) => e.span
  | .stmt value => value.span
  | .expr _ e => e.span
  | .pattern value => value.span

/-- Sites that start between two offsets, one after the other. -/
structure Spread (map : LineMap) (first last : Nat) (sites : List Site) : Prop where
  sorted : sites.Pairwise fun a b => a.span.start ≤ b.span.start
  within : ∀ site ∈ sites, first ≤ site.span.start ∧ site.span.start ≤ last
  located : ∀ site ∈ sites, site.span.Located map

namespace Spread

variable {map : LineMap} {first middle next last : Nat} {site : Site} {sites others : List Site}
  {e : Expr}

theorem nil (map : LineMap) (first last : Nat) : Spread map first last [] :=
  ⟨.nil, by simp, by simp⟩

theorem widen {before after : Nat} (h : Spread map first last sites) (hbefore : before ≤ first)
    (hafter : last ≤ after) : Spread map before after sites := by
  refine ⟨h.sorted, fun site hsite => ?_, h.located⟩
  obtain ⟨hfirst, hlast⟩ := h.within site hsite
  exact ⟨Nat.le_trans hbefore hfirst, Nat.le_trans hlast hafter⟩

theorem append (h : Spread map first middle sites) (hothers : Spread map next last others)
    (hle : middle ≤ next) (hfirst : first ≤ middle) (hlast : next ≤ last) :
    Spread map first last (sites ++ others) := by
  have hwide := h.widen (Nat.le_refl first) (Nat.le_trans hle hlast)
  have hwideOthers := hothers.widen (Nat.le_trans hfirst hle) (Nat.le_refl last)
  refine ⟨List.pairwise_append.2 ⟨h.sorted, hothers.sorted, ?_⟩,
    List.forall_mem_append.2 ⟨hwide.within, hwideOthers.within⟩,
    List.forall_mem_append.2 ⟨h.located, hothers.located⟩⟩
  intro a ha b hb
  have hstop := (h.within a ha).2
  have hstart := (hothers.within b hb).1
  omega

/-- A site comes before those that start where it starts or behind. -/
theorem cons (h : Spread map first last sites) (hstart : site.span.start = first)
    (hle : first ≤ last) (hlocated : site.span.Located map) :
    Spread map first last (site :: sites) := by
  refine ⟨List.pairwise_cons.2 ⟨fun other hother => ?_, h.sorted⟩,
    List.forall_mem_cons.2 ⟨by omega, h.within⟩, List.forall_mem_cons.2 ⟨hlocated, h.located⟩⟩
  rw [hstart]
  exact (h.within other hother).1

end Spread

/-! ## Sites of phrases -/

/-- The sites of a phrase. -/
def Script.Phrase.sites : Phrase → List Site
  | .stmt value => sitesOfStmt value
  | .expr value | .method value => sitesOfExpr false value
  | .pattern value => sitesOfPattern value
  | .declarator value => sitesOfDeclarators [value]
  | .switchCase value => sitesOfCases [value]
  | .member value => sitesOfMembers [value]

/-- The site that a phrase is. -/
def Script.Phrase.site? : Phrase → Option Site
  | .stmt value => some (.stmt value)
  | .expr value | .method value => some (.expr false value)
  | .pattern value => some (.pattern value)
  | .declarator _ | .switchCase _ | .member _ => none

section Lists

theorem sitesOfStmts_eq (values : List Stmt) :
    sitesOfStmts values = (values.map .stmt).flatMap Phrase.sites := by
  induction values with
  | nil => rfl
  | cons value rest ih =>
      rw [sitesOfStmts, ih]
      rfl

theorem sitesOfExprs_eq (values : List Expr) :
    sitesOfExprs values = (values.map .expr).flatMap Phrase.sites := by
  induction values with
  | nil => rfl
  | cons value rest ih =>
      rw [sitesOfExprs, ih]
      rfl

theorem sitesOfPatterns_eq (values : List Pattern) :
    sitesOfPatterns values = (values.map .pattern).flatMap Phrase.sites := by
  induction values with
  | nil => rfl
  | cons value rest ih =>
      rw [sitesOfPatterns, ih]
      rfl

theorem sitesOfStmt?_eq (value : Option Stmt) :
    sitesOfStmt? value = (value.toList.map .stmt).flatMap Phrase.sites := by
  cases value <;> simp [sitesOfStmt?, Phrase.sites]

theorem sitesOfExpr?_eq (value : Option Expr) :
    sitesOfExpr? value = (value.toList.map .expr).flatMap Phrase.sites := by
  cases value <;> simp [sitesOfExpr?, Phrase.sites]

theorem sitesOfElements_eq (values : List (Option Pattern)) :
    sitesOfElements values =
      (values.flatMap fun element => element.toList.map .pattern).flatMap Phrase.sites := by
  induction values with
  | nil => rfl
  | cons value rest ih => cases value <;> simp [sitesOfElements, Phrase.sites, ih]

theorem sitesOfTargets_eq (values : List (String × Pattern)) :
    sitesOfTargets values =
      (values.map fun property => .pattern property.2).flatMap Phrase.sites := by
  induction values with
  | nil => rfl
  | cons value rest ih =>
      rw [sitesOfTargets, ih]
      rfl

theorem sitesOfDeclarators_eq (values : List Declarator) :
    sitesOfDeclarators values = (values.map .declarator).flatMap Phrase.sites := by
  induction values with
  | nil => rfl
  | cons value rest ih =>
      obtain ⟨target, init, span⟩ := value
      rw [List.map_cons, List.flatMap_cons, ← ih]
      simp [sitesOfDeclarators, Phrase.sites]

theorem sitesOfCases_eq (values : List SwitchCase) :
    sitesOfCases values = (values.map .switchCase).flatMap Phrase.sites := by
  induction values with
  | nil => rfl
  | cons value rest ih =>
      obtain ⟨test, body, span⟩ := value
      rw [List.map_cons, List.flatMap_cons, ← ih]
      simp [sitesOfCases, Phrase.sites]

theorem sitesOfMembers_eq (values : List ClassMember) :
    sitesOfMembers values = (values.map .member).flatMap Phrase.sites := by
  induction values with
  | nil => rfl
  | cons value rest ih =>
      rw [List.map_cons, List.flatMap_cons, ← ih]
      cases value <;> simp [sitesOfMembers, Phrase.sites]

theorem sites_ofProperty (keySpan : Span) (value : Expr) :
    (Phrase.ofProperty keySpan value).sites = sitesOfExpr false value := by
  unfold Phrase.ofProperty
  split
  · dsimp only
    split <;> rfl
  · rfl

theorem sitesOfProperties_eq (values : List (String × Span × Expr)) :
    sitesOfProperties values =
      (values.map fun property => .ofProperty property.2.1 property.2.2).flatMap Phrase.sites := by
  induction values with
  | nil => rfl
  | cons value rest ih =>
      rw [sitesOfProperties, ih, List.map_cons, List.flatMap_cons, sites_ofProperty]

theorem sitesOfBody_eq (value : FunctionBody) :
    sitesOfBody value = (Phrase.ofBody value).sites := by
  cases value <;> rfl

end Lists

/-- The sites of a phrase are the phrase and those of its children.  Only the expression of
an expression statement is told apart from other expressions. -/
theorem Script.Phrase.sites_eq (phrase : Phrase) (h : ∀ e span, phrase ≠ .stmt (.exprStmt e span)) :
    phrase.sites = phrase.site?.toList ++ phrase.children.flatMap Phrase.sites := by
  cases phrase with
  | stmt value =>
      cases value with
      | exprStmt e span => exact absurd rfl (h e span)
      | _ =>
          simp [Phrase.sites, Phrase.site?, Phrase.children, Phrase.childrenOfStmt, sitesOfStmt,
            sitesOfStmts_eq, sitesOfStmt?_eq, sitesOfExpr?_eq, sitesOfPatterns_eq,
            sitesOfDeclarators_eq, sitesOfCases_eq, sitesOfMembers_eq]
  | expr value | method value =>
      cases value <;>
        simp [Phrase.sites, Phrase.site?, Phrase.children, Phrase.childrenOfExpr, sitesOfExpr,
          sitesOfExprs_eq, sitesOfPatterns_eq, sitesOfProperties_eq, sitesOfBody_eq]
  | pattern value =>
      cases value <;>
        simp [Phrase.sites, Phrase.site?, Phrase.children, Phrase.childrenOfPattern, sitesOfPattern,
          sitesOfElements_eq, sitesOfTargets_eq]
  | declarator value =>
      obtain ⟨target, init, span⟩ := value
      simp [Phrase.sites, Phrase.site?, Phrase.children, sitesOfDeclarators, sitesOfExpr?_eq]
  | switchCase value =>
      obtain ⟨test, body, span⟩ := value
      simp [Phrase.sites, Phrase.site?, Phrase.children, sitesOfCases, sitesOfExpr?_eq,
        sitesOfStmts_eq]
  | member value =>
      cases value <;>
        simp [Phrase.sites, Phrase.site?, Phrase.children, sitesOfMembers, sitesOfExpr?_eq]

/-- Whether an expression is the whole of a statement makes no difference to its parts. -/
theorem sitesOfExpr_eq_cons (e : Expr) :
    ∃ rest, ∀ whole, sitesOfExpr whole e = .expr whole e :: rest := by
  unfold sitesOfExpr
  exact ⟨_, fun _ => rfl⟩

/-- The phrase that a site is. -/
def Site.phrase : Site → Phrase
  | .stmt value => .stmt value
  | .expr _ e => .expr e
  | .pattern value => .pattern value

/-- What holds everywhere in a phrase holds everywhere in each of its sites, unless a method
is told apart from other functions. -/
theorem Script.Phrase.Everywhere.sites {P : Phrase → Prop}
    (hmethod : ∀ function, P (.method function) → P (.expr function)) {phrase : Phrase}
    (h : phrase.Everywhere P) : ∀ site ∈ phrase.sites, site.phrase.Everywhere P := by
  induction h with
  | @intro phrase here inside ih =>
      have hchildren : ∀ site ∈ phrase.children.flatMap Phrase.sites, site.phrase.Everywhere P := by
        intro site hsite
        obtain ⟨child, hchild, hmem⟩ := List.mem_flatMap.1 hsite
        exact ih child hchild site hmem
      by_cases hwhole : ∃ e span, phrase = .stmt (.exprStmt e span)
      · obtain ⟨e, span, rfl⟩ := hwhole
        obtain ⟨rest, hrest⟩ := sitesOfExpr_eq_cons e
        rw [Phrase.children, Phrase.childrenOfStmt, List.flatMap_singleton, Phrase.sites,
          hrest] at hchildren
        obtain ⟨he, hothers⟩ := List.forall_mem_cons.1 hchildren
        rw [Phrase.sites, sitesOfStmt, hrest]
        exact List.forall_mem_cons.2 ⟨.intro here inside, List.forall_mem_cons.2 ⟨he, hothers⟩⟩
      · rw [phrase.sites_eq fun e span heq => hwhole ⟨e, span, heq⟩]
        refine List.forall_mem_append.2 ⟨fun site hsite => ?_, hchildren⟩
        cases phrase with
        | stmt | expr | pattern =>
            obtain rfl := Option.some.inj (Option.mem_toList.1 hsite)
            exact .intro here inside
        | method function =>
            obtain rfl := Option.some.inj (Option.mem_toList.1 hsite)
            exact .intro (hmethod function here) inside
        | declarator | switchCase | member => exact absurd hsite List.not_mem_nil

/-! ## Sites of sound phrases -/

variable {text : List Char} {first last : Nat}

/-- Phrases in a row have their sites in the order in which they stand. -/
theorem Script.Phrase.InRow.spread {phrases : List Phrase} (h : Phrase.InRow first last phrases)
    (hle : first ≤ last) (hspread : ∀ phrase ∈ phrases, phrase.span.start ≤ phrase.span.stop ∧
      Spread (.ofText text) phrase.span.start phrase.span.stop phrase.sites) :
    Spread (.ofText text) first last (phrases.flatMap Phrase.sites) := by
  induction phrases generalizing first with
  | nil => exact .nil _ _ _
  | cons phrase rest ih =>
      obtain ⟨⟨hstop, hsites⟩, hothers⟩ := List.forall_mem_cons.1 hspread
      obtain ⟨hbehind, hrest⟩ := List.pairwise_cons.1 h.inOrder
      obtain ⟨⟨hfirst, hlast⟩, hwithin⟩ := List.forall_mem_cons.1 h.within
      have hrow : Phrase.InRow phrase.span.stop last rest :=
        ⟨hrest, fun other hother => ⟨hbehind other hother, (hwithin other hother).2⟩⟩
      exact (hsites.widen hfirst (Nat.le_refl _)).append (ih hrow hlast hothers) (Nat.le_refl _)
        (Nat.le_trans hfirst hstop) hlast

/-- An expression statement has the line of its expression. -/
theorem Spread.exprStmt {map : LineMap} {e : Expr}
    (h : Spread map first last (sitesOfExpr false e)) (span : Span) :
    Spread map first last (sitesOfStmt (.exprStmt e span)) := by
  obtain ⟨rest, hrest⟩ := sitesOfExpr_eq_cons e
  have hsites : sitesOfStmt (.exprStmt e span) =
      .stmt (.exprStmt e span) :: .expr true e :: rest := by
    rw [← hrest true]
    rfl
  rw [hrest] at h
  rw [hsites]
  obtain ⟨hbehind, hsorted⟩ := List.pairwise_cons.1 h.sorted
  obtain ⟨hwithin, hothers⟩ := List.forall_mem_cons.1 h.within
  obtain ⟨hlocated, hrestLocated⟩ := List.forall_mem_cons.1 h.located
  refine ⟨List.pairwise_cons.2 ⟨List.forall_mem_cons.2 ⟨Nat.le_refl _, hbehind⟩,
      List.pairwise_cons.2 ⟨hbehind, hsorted⟩⟩,
    List.forall_mem_cons.2 ⟨hwithin, List.forall_mem_cons.2 ⟨hwithin, hothers⟩⟩,
    List.forall_mem_cons.2 ⟨hlocated, List.forall_mem_cons.2 ⟨hlocated, hrestLocated⟩⟩⟩

/-- The sites of a sound phrase are spread where it stands. -/
theorem Script.Phrase.Everywhere.spread {phrase : Phrase}
    (h : phrase.Everywhere (Phrase.Sound text)) :
    Spread (.ofText text) phrase.span.start phrase.span.stop phrase.sites := by
  induction h with
  | @intro phrase here inside ih =>
      have hmoves := here.moves
      have hchildren := here.row.spread (Nat.le_of_lt hmoves) fun child hchild =>
        ⟨Nat.le_of_lt (inside child hchild).here.moves, ih child hchild⟩
      by_cases hwhole : ∃ e span, phrase = .stmt (.exprStmt e span)
      · obtain ⟨e, span, rfl⟩ := hwhole
        rw [Phrase.children, Phrase.childrenOfStmt, List.flatMap_singleton] at hchildren
        exact hchildren.exprStmt span
      · rw [phrase.sites_eq fun e span heq => hwhole ⟨e, span, heq⟩]
        cases hsite : phrase.site? with
        | none => exact hchildren
        | some site =>
            have hspan : site.span = phrase.span := by
              cases phrase with
              | stmt value =>
                  obtain rfl := Option.some.inj hsite
                  cases value with
                  | exprStmt e span => exact absurd ⟨e, span, rfl⟩ hwhole
                  | _ => rfl
              | expr | method | pattern =>
                  obtain rfl := Option.some.inj hsite
                  rfl
              | declarator | switchCase | member => contradiction
            refine hchildren.cons (by rw [hspan]) (Nat.le_of_lt hmoves) ?_
            rw [hspan]
            exact here.stretch.located

/-- The sites of a program are spread over its text. -/
theorem Script.spread_parse {source : String} {program : Program} (h : parse source = .ok program) :
    ∃ first last, Spread (.ofText source.toList) first last program.sites := by
  obtain ⟨hplaced, hspan⟩ := placed_parse h
  refine ⟨program.span.start, program.span.stop, ?_⟩
  rw [Program.sites, sitesOfStmts_eq]
  exact hplaced.row.spread hspan.start_le_stop fun phrase hphrase =>
    ⟨Nat.le_of_lt (hplaced.sound phrase hphrase).here.moves, (hplaced.sound phrase hphrase).spread⟩

end EventLoop
