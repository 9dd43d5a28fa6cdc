import EventLoop.Proofs.Peg.Adequacy
import EventLoop.Proofs.Peg.Shift

/-!
# Where attempts are made

The furthest place at which a rule has failed is a place of the text, because rules are only
tried at places that reading leads to (`Concludes.isPlace`).  Attempts are never forgotten on
the way from the parts of a sequence to the whole, so that a sequence is refused at the place
where its last part was, or further on (`Concludes.exists_of_seq`).
-/

namespace EventLoop.Peg

variable {R : Type}

/-- The attempts that are left by an outcome. -/
def Outcome.attempts : Outcome R → Attempts R
  | .failure attempts => attempts
  | .success attempts _ _ => attempts

/-- A byte offset is that of a place to which reading leads. -/
def Reaches (start : Cursor) (offset : Nat) : Prop :=
  ∃ place, start.Leads place ∧ place.offset = offset

namespace Reaches

variable {start : Cursor} {offset other : Nat}

theorem max (h : Reaches start offset) (hother : Reaches start other) :
    Reaches start (max offset other) := by
  rcases Nat.le_total offset other with hle | hle
  · rwa [Nat.max_eq_right hle]
  · rwa [Nat.max_eq_left hle]

end Reaches

namespace Outcome

variable {start : Cursor} {outcome : Outcome R}

theorem reaches_ofStop (h : Reaches start 0) (stop : Option Cursor) :
    Reaches start (ofStop stop : Outcome R).attempts.offset := by
  cases stop <;> exact h

theorem attempts_orNothing (outcome : Outcome R) (cursor : Cursor) :
    (outcome.orNothing cursor).attempts = outcome.attempts := by
  cases outcome <;> rfl

theorem offset_attempts_inverted (outcome : Outcome R) (cursor : Cursor) :
    (outcome.inverted cursor).attempts.offset = 0 := by
  cases outcome <;> rfl

theorem reaches_report (grammar : Grammar R) (mode : Mode) (rule : R) {cursor : Cursor}
    (hplace : start.Leads cursor) (h : Reaches start outcome.attempts.offset) :
    Reaches start (grammar.report mode rule cursor outcome).attempts.offset := by
  unfold Grammar.report
  split
  · exact h
  · cases outcome with
    | failure attempts =>
        change Reaches start (attempts.note rule cursor.offset).offset
        rw [Attempts.offset_note]
        exact h.max ⟨cursor, hplace, rfl⟩
    | success => exact h

variable [DecidableEq R]

theorem offset_attempts_after (earlier : Attempts R) (trees : List (Tree R))
    (outcome : Outcome R) :
    (outcome.after earlier trees).attempts.offset =
      max earlier.offset outcome.attempts.offset := by
  cases outcome <;> exact Attempts.offset_join _ _

end Outcome

namespace Concludes

variable [DecidableEq R] {grammar : Grammar R} {mode : Mode} {e f : Expr R}
  {cursor start stop : Cursor} {outcome : Outcome R} {attempts : Attempts R}
  {trees : List (Tree R)}

/-- Reading leads on to what is matched next. -/
theorem leads_next (hskips : grammar.Skips) (hplace : start.Leads cursor)
    (h : Concludes grammar mode e cursor (.success attempts stop trees)) :
    start.Leads (grammar.skip mode stop) :=
  hplace.trans ((h.matches.leads hskips).trans (hskips.skip mode stop))

/-- **Attempts are made at places of the text.**  Without any attempts the furthest place is the
start of the text. -/
theorem isPlace (hskips : grammar.Skips) (hzero : Reaches start 0)
    (h : Concludes grammar mode e cursor outcome) (hplace : start.Leads cursor) :
    Reaches start outcome.attempts.offset := by
  -- Only a rule makes an attempt, at its own place; all else joins the attempts of its parts.
  induction h with
  | text | char | endOfText => exact Outcome.reaches_ofStop hzero _
  | rule _ ih => exact Outcome.reaches_report grammar _ _ hplace (ih hplace)
  | seqRefused _ ih | altFirst _ _ ih | manyNone _ ih => exact ih hplace
  | seq h _ ih ihrest =>
      rw [Outcome.offset_attempts_after]
      exact Reaches.max (ih hplace) (ihrest (h.leads_next hskips hplace))
  | altSecond _ _ ih ihsecond =>
      rw [Outcome.offset_attempts_after]
      exact Reaches.max (ih hplace) (ihsecond hplace)
  | optional _ ih =>
      rw [Outcome.attempts_orNothing]
      exact ih hplace
  | manyLast h _ ih ihend =>
      change Reaches start (Attempts.join _ _).offset
      rw [Attempts.offset_join]
      exact Reaches.max (ih hplace) (ihend (h.leads_next hskips hplace))
  | manyMore h _ _ ih _ ihrest =>
      rw [Outcome.offset_attempts_after]
      exact Reaches.max (ih hplace) (ihrest (h.leads_next hskips hplace))
  | «unless» =>
      rw [Outcome.offset_attempts_inverted]
      exact hzero

end Concludes

/-- A repetition of a rule gives trees of the rule, of which none goes beyond its end. -/
theorem Matches.leads_of_mem_many {grammar : Grammar R} {mode : Mode} {r : R} {cursor : Cursor}
    {result : Match R} (hskips : grammar.Skips) (hkind : grammar.kind r ≠ .hidden)
    (hmode : mode ≠ .token) (h : Matches grammar mode (.many (.rule r)) cursor result) :
    ∀ tree ∈ result.trees, tree.rule = r ∧ tree.stop.Leads result.stop := by
  generalize hmany : Expr.many (.rule r) = repetition at h
  induction h with
  | noMore => exact List.forall_mem_nil _
  | last h =>
      obtain rfl := Expr.many.inj hmany
      obtain ⟨inner, -, rfl⟩ := h.of_recorded hkind hmode
      exact List.forall_mem_singleton.2 ⟨rfl, .refl _⟩
  | more h hnext hrest _ _ ih =>
      have hread := (hskips.skip _ _).trans (hrest.leads hskips)
      have hlater := ih hmode hmany
      obtain rfl := Expr.many.inj hmany
      obtain ⟨inner, -, rfl⟩ := h.of_recorded hkind hmode
      exact List.forall_mem_cons.2 ⟨⟨rfl, hread⟩, hlater⟩
  | _ => contradiction

end EventLoop.Peg
