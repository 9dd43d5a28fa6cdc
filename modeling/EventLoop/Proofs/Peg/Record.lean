import EventLoop.Proofs.Peg.Derivation
import EventLoop.Proofs.Peg.Shape

/-!
# What is recorded

Every recorded tree comes from a match of the body of its rule
(`Matches.derived`), and which rules stand among the children of a tree is read
off the body:

* `Expr.always` says that an expression records a rule of a kind in every match;
* `Expr.forms` lists the rows of rules that an expression records, if there are
  finitely many of them;
* a repetition of a row of rules records that row over and over
  (`Labels.many_forms`);
* `Expr.allows` runs a machine over all rows that an expression records at once
  (`Labels.exists_state`).
-/

namespace EventLoop.Peg

variable {R : Type} {grammar : Grammar R}

/-! ## Trees and matches -/

/-- Whether a rule says itself how its parts follow each other. -/
def RuleKind.setsMode : RuleKind → Bool
  | .token | .joined | .spaced => true
  | .plain | .hidden => false

/-- Where parts follow each other directly and are recorded, each of them says how its own parts
follow each other, so that plain rules are only used where there may be layout. -/
def Grammar.Separates (grammar : Grammar R) : Prop :=
  ∀ r, grammar.kind r = .joined → ∀ used ∈ (grammar.body r).mentions,
    (grammar.kind used).setsMode = true

/-- A tree that a match of the body of its rule has recorded, and so are its
children. -/
inductive Tree.Derived (grammar : Grammar R) : Tree R → Prop where
  | node {mode : Mode} {rule : R} {start stop : Cursor} {children : List (Tree R)}
      (hmode : mode ≠ .token) (hkind : grammar.kind rule ≠ .hidden)
      (hspaced : grammar.kind rule = .plain → mode = .spaced)
      (body : Matches grammar ((grammar.kind rule).modeIn mode) (grammar.body rule) start
        ⟨stop, children⟩)
      (derived : ∀ child ∈ children, Derived grammar child) :
      Derived grammar (.node rule start stop children)

/-- What a match records has come from matches. -/
theorem Matches.derived (hseparates : grammar.Separates) {mode : Mode} {e : Expr R}
    {cursor : Cursor} {result : Match R} (h : Matches grammar mode e cursor result)
    (hjoined : mode = .joined → ∀ r ∈ e.mentions, (grammar.kind r).setsMode = true) :
    ∀ tree ∈ result.trees, tree.Derived grammar := by
  induction h with
  | text | char | endOfText | absent | noMore | «unless» => simp
  | @rule mode r cursor result h ih =>
      have hset (hmode : mode = .joined) : (grammar.kind r).setsMode = true :=
        hjoined hmode r List.mem_cons_self
      have hinside : ∀ tree ∈ result.trees, tree.Derived grammar := by
        refine ih fun hmode => ?_
        cases hkind : grammar.kind r with
        | joined => exact hseparates r hkind
        | plain | hidden =>
            rw [hkind] at hmode hset
            exact absurd (hset hmode) (by decide)
        | token | spaced =>
            rw [hkind] at hmode
            contradiction
      unfold Grammar.record
      split
      · exact hinside
      · rename_i hrecorded
        obtain ⟨hkind, htoken⟩ := not_or.1 hrecorded
        intro tree htree
        rw [List.mem_singleton.1 htree]
        refine .node htoken hkind (fun hplain => ?_) h hinside
        cases mode with
        | spaced => rfl
        | joined =>
            rw [hplain] at hset
            exact absurd (hset rfl) (by decide)
        | token => contradiction
  | seq _ _ ih ihrest =>
      refine List.forall_mem_append.2 ⟨ih fun hmode r hr => ?_, ihrest fun hmode r hr => ?_⟩
      · exact hjoined hmode r (List.mem_append_left _ hr)
      · exact hjoined hmode r (List.mem_append_right _ hr)
  | altFirst _ _ ih => exact ih fun hmode r hr => hjoined hmode r (List.mem_append_left _ hr)
  | altSecond _ _ ih => exact ih fun hmode r hr => hjoined hmode r (List.mem_append_right _ hr)
  | present _ ih | last _ _ ih => exact ih hjoined
  | more _ _ _ ih _ ihrest => exact List.forall_mem_append.2 ⟨ih hjoined, ihrest hjoined⟩

/-- Whether a rule is never recorded inside a token. -/
def RuleKind.isQuiet : RuleKind → Bool
  | .token | .hidden => true
  | .plain | .joined | .spaced => false

/-- Inside a token nothing is recorded. -/
theorem Matches.trees_eq_nil (hquiet : ∀ r, (grammar.kind r).isQuiet = true →
      ∀ used ∈ (grammar.body r).mentions, (grammar.kind used).isQuiet = true)
    {e : Expr R} {cursor : Cursor} {result : Match R} (h : Matches grammar .token e cursor result)
    (he : ∀ r ∈ e.mentions, (grammar.kind r).isQuiet = true) : result.trees = [] := by
  generalize hmode : Mode.token = mode at h
  induction h with
  | text | char | endOfText | absent | noMore | «unless» => rfl
  | @rule mode r cursor result h ih =>
      subst hmode
      have hkind := he r List.mem_cons_self
      have hinside : (grammar.kind r).modeIn .token = .token := by
        cases hr : grammar.kind r <;> first | rfl | (rw [hr] at hkind; contradiction)
      have hnone := ih (hquiet r hkind) hinside.symm
      rwa [Grammar.record, if_pos (.inr rfl)]
  | seq _ _ ih ihrest =>
      have hfirst := ih (fun r hr => he r (List.mem_append_left _ hr)) hmode
      have hsecond := ihrest (fun r hr => he r (List.mem_append_right _ hr)) hmode
      exact List.append_eq_nil_iff.2 ⟨hfirst, hsecond⟩
  | altFirst _ _ ih => exact ih (fun r hr => he r (List.mem_append_left _ hr)) hmode
  | altSecond _ _ ih => exact ih (fun r hr => he r (List.mem_append_right _ hr)) hmode
  | present _ ih | last _ _ ih => exact ih he hmode
  | more _ _ _ ih _ ihrest => exact List.append_eq_nil_iff.2 ⟨ih he hmode, ihrest he hmode⟩

/-! ## Rules that are recorded -/

namespace Expr

/-- Whether every match of an expression records a rule of a kind. -/
def always (kind : R → Bool) : Expr R → Bool
  | .rule r => kind r
  | .seq e f => e.always kind || f.always kind
  | .alt e f => e.always kind && f.always kind
  | .text _ | .char _ | .endOfText | .optional _ | .many _ | .unless _ => false

/-- The rows of rules that an expression records, if it repeats nothing. -/
def forms : Expr R → Option (List (List R))
  | .text _ | .char _ | .endOfText | .unless _ => some [[]]
  | .rule r => some [[r]]
  | .seq e f => do
    let first ← e.forms
    let second ← f.forms
    return first.flatMap fun rules => second.map (rules ++ ·)
  | .alt e f => do return (← e.forms) ++ (← f.forms)
  | .optional e => do return [] :: (← e.forms)
  | .many _ => none

/-- Whether a machine that starts in a state can read all that an expression
records, and stops in a state of some kind.  A round of a repetition has to lead
back to the state in which it starts. -/
def allows {S : Type} [DecidableEq S] (read : S → R → Option S) :
    Expr R → (S → Bool) → S → Bool
  | .text _, stops, state | .char _, stops, state | .endOfText, stops, state
  | .unless _, stops, state => stops state
  | .rule r, stops, state => (read state r).any stops
  | .seq e f, stops, state => e.allows read (f.allows read stops) state
  | .alt e f, stops, state => e.allows read stops state && f.allows read stops state
  | .optional e, stops, state => stops state && e.allows read stops state
  | .many e, stops, state => stops state && e.allows read (decide <| · = state) state

end Expr

/-- A rule that is always recorded is there. -/
theorem Labels.exists_of_always {e : Expr R} {rules : List R} (h : Labels grammar e rules)
    (hrecorded : ∀ r ∈ e.mentions, grammar.kind r ≠ .hidden) {kind : R → Bool}
    (halways : e.always kind = true) : ∃ r ∈ rules, kind r = true := by
  induction h with
  | text | char | endOfText | absent | present | noMore | more | refused => contradiction
  | rule r => exact ⟨r, by simp, halways⟩
  | hidden h => exact absurd h (hrecorded _ (by simp [Expr.mentions]))
  | seq _ _ ih ihf =>
      simp only [Expr.mentions, List.forall_mem_append] at hrecorded
      rcases Bool.or_eq_true_iff.1 halways with he | hf
      · obtain ⟨r, hr, hkind⟩ := ih hrecorded.1 he
        exact ⟨r, List.mem_append_left _ hr, hkind⟩
      · obtain ⟨r, hr, hkind⟩ := ihf hrecorded.2 hf
        exact ⟨r, List.mem_append_right _ hr, hkind⟩
  | altLeft _ f ih =>
      simp only [Expr.mentions, List.forall_mem_append] at hrecorded
      exact ih hrecorded.1 (Bool.and_eq_true_iff.1 halways).1
  | altRight e _ ih =>
      simp only [Expr.mentions, List.forall_mem_append] at hrecorded
      exact ih hrecorded.2 (Bool.and_eq_true_iff.1 halways).2

/-- What is recorded is one of the listed rows. -/
theorem Labels.mem_forms {e : Expr R} {rules : List R} (h : Labels grammar e rules)
    (hrecorded : ∀ r ∈ e.mentions, grammar.kind r ≠ .hidden) :
    ∀ {rows : List (List R)}, e.forms = some rows → rules ∈ rows := by
  induction h with
  | text | char | endOfText | refused | rule =>
      intro rows hrows
      rw [← Option.some.inj hrows]
      exact List.mem_singleton_self _
  | hidden h => exact absurd h (hrecorded _ (by simp [Expr.mentions]))
  | @seq e f rules others _ _ ih ihf =>
      intro rows hrows
      simp only [Expr.mentions, List.forall_mem_append] at hrecorded
      obtain ⟨first, hfirst, hrows⟩ := Option.bind_eq_some_iff.1 hrows
      obtain ⟨second, hsecond, hrows⟩ := Option.bind_eq_some_iff.1 hrows
      rw [← Option.some.inj hrows]
      exact List.mem_flatMap.2 ⟨rules, ih hrecorded.1 hfirst,
        List.mem_map.2 ⟨others, ihf hrecorded.2 hsecond, rfl⟩⟩
  | altLeft _ f ih =>
      intro rows hrows
      simp only [Expr.mentions, List.forall_mem_append] at hrecorded
      obtain ⟨first, hfirst, hrows⟩ := Option.bind_eq_some_iff.1 hrows
      obtain ⟨second, hsecond, hrows⟩ := Option.bind_eq_some_iff.1 hrows
      rw [← Option.some.inj hrows]
      exact List.mem_append_left _ (ih hrecorded.1 hfirst)
  | altRight e _ ih =>
      intro rows hrows
      simp only [Expr.mentions, List.forall_mem_append] at hrecorded
      obtain ⟨first, hfirst, hrows⟩ := Option.bind_eq_some_iff.1 hrows
      obtain ⟨second, hsecond, hrows⟩ := Option.bind_eq_some_iff.1 hrows
      rw [← Option.some.inj hrows]
      exact List.mem_append_right _ (ih hrecorded.2 hsecond)
  | absent e =>
      intro rows hrows
      obtain ⟨inner, hinner, hrows⟩ := Option.bind_eq_some_iff.1 hrows
      rw [← Option.some.inj hrows]
      exact List.mem_cons_self
  | present _ ih =>
      intro rows hrows
      obtain ⟨inner, hinner, hrows⟩ := Option.bind_eq_some_iff.1 hrows
      rw [← Option.some.inj hrows]
      exact List.mem_cons_of_mem _ (ih hrecorded hinner)
  | noMore | more =>
      intro rows hrows
      contradiction

/-- A repetition records the rows of its rounds, one after the other. -/
theorem Labels.many_forms {e : Expr R} {rules : List R} (h : Labels grammar (.many e) rules)
    (hrecorded : ∀ r ∈ e.mentions, grammar.kind r ≠ .hidden) {rows : List (List R)}
    (hrows : e.forms = some rows) :
    ∃ rounds : List (List R), (∀ row ∈ rounds, row ∈ rows) ∧ rules = rounds.flatten := by
  generalize hmany : Expr.many e = repetition at h
  induction h with
  | noMore => exact ⟨[], by simp, rfl⟩
  | @more other rules others h _ _ ih =>
      obtain rfl := Expr.many.inj hmany
      obtain ⟨rounds, hrounds, rfl⟩ := ih hmany
      exact ⟨rules :: rounds, List.forall_mem_cons.2 ⟨h.mem_forms hrecorded hrows, hrounds⟩, rfl⟩
  | _ => contradiction

/-- A machine that can read all that an expression records can read what it has
recorded. -/
theorem Labels.exists_state {S : Type} [DecidableEq S] {read : S → R → Option S} {e : Expr R}
    {rules : List R} (h : Labels grammar e rules)
    (hrecorded : ∀ r ∈ e.mentions, grammar.kind r ≠ .hidden) {stops : S → Bool} {state : S}
    (hallows : e.allows read stops state = true) :
    ∃ last, rules.foldlM read state = some last ∧ stops last = true := by
  induction h generalizing stops state with
  | text | char | endOfText | refused => exact ⟨state, rfl, hallows⟩
  | absent | noMore => exact ⟨state, rfl, (Bool.and_eq_true_iff.1 hallows).1⟩
  | rule r =>
      obtain ⟨last, hlast, hstops⟩ := (Option.any_eq_true _ _).1 hallows
      exact ⟨last, by rw [List.foldlM_cons, hlast]; rfl, hstops⟩
  | hidden h => exact absurd h (hrecorded _ (by simp [Expr.mentions]))
  | seq _ _ ih ihf =>
      simp only [Expr.mentions, List.forall_mem_append] at hrecorded
      obtain ⟨middle, hmiddle, hbehind⟩ := ih hrecorded.1 hallows
      obtain ⟨last, hlast, hstops⟩ := ihf hrecorded.2 hbehind
      exact ⟨last, by rw [List.foldlM_append, hmiddle]; exact hlast, hstops⟩
  | altLeft _ f ih =>
      simp only [Expr.mentions, List.forall_mem_append] at hrecorded
      exact ih hrecorded.1 (Bool.and_eq_true_iff.1 hallows).1
  | altRight e _ ih =>
      simp only [Expr.mentions, List.forall_mem_append] at hrecorded
      exact ih hrecorded.2 (Bool.and_eq_true_iff.1 hallows).2
  | present _ ih => exact ih hrecorded (Bool.and_eq_true_iff.1 hallows).2
  | more _ _ ih ihrest =>
      -- a round leads back to the state, in which the other rounds start again
      obtain ⟨middle, hmiddle, hback⟩ := ih hrecorded (Bool.and_eq_true_iff.1 hallows).2
      obtain rfl := of_decide_eq_true hback
      obtain ⟨last, hlast, hstops⟩ := ihrest hrecorded hallows
      exact ⟨last, by rw [List.foldlM_append, hmiddle]; exact hlast, hstops⟩

end EventLoop.Peg
