import EventLoop.Proofs.Peg.Conclusion
import EventLoop.Proofs.Peg.Progress

/-!
# The matcher does what the grammar says

The bounds of the matcher never make a difference if the grammar is founded: what
it comes to at a place is what is concluded there, with the same attempts
(`concludes_parse`), so that it is what the grammar derives (`derives_parse`).

* **Rounds.**  Every round of a repetition reads a character at least, so that as
  many rounds as there are characters left are enough (`concludes_matchRounds`).
* **Depth.**  Uses of rules at one place go down the rank, so that as many nested
  uses as there are ranks are enough (`concludes_matchRule`).
* **Places.**  The answers at later places are those of the rules there, from the
  end of the text to its start (`concludes_lookUp`).

So every expression comes to something everywhere (`Grammar.Founded.total`), and
what does not match can be shown not to by showing that no match is possible.
-/

namespace EventLoop.Peg

variable {R : Type}

variable [DecidableEq R]

/-- A matcher does what the grammar says of an expression at a place. -/
def Answered (grammar : Grammar R) (mode : Mode) (e : Expr R) (matcher : Matcher R)
    (cursor : Cursor) : Prop :=
  Concludes grammar mode e cursor (matcher cursor)

variable {grammar : Grammar R}

/-- A success of a conclusion is a match. -/
theorem Concludes.matches {mode : Mode} {e : Expr R} {cursor stop : Cursor}
    {attempts : Attempts R} {trees : List (Tree R)}
    (h : Concludes grammar mode e cursor (.success attempts stop trees)) :
    Matches grammar mode e cursor ⟨stop, trees⟩ :=
  h.derives.matches _ rfl

/-! ## Expressions -/

section Expressions

variable (founded : grammar.Founded) {mode : Mode} {e : Expr R} {matcher : Matcher R}

include founded in
/-- The rounds of a repetition behind its first one, if there are as many as
characters. -/
theorem concludes_matchRounds {origin : Cursor} (hmoves : e.mayBeEmpty founded.mayBeEmpty = false)
    (hround : ∀ place, origin.Leads place → Answered grammar mode e matcher place)
    (rounds : Nat) :
    ∀ {cursor stop : Cursor} {attempts : Attempts R} {trees : List (Tree R)}, origin.Leads stop →
      stop.rest.length < rounds →
        Concludes grammar mode e cursor (.success attempts stop trees) →
          Concludes grammar mode (.many e) cursor
            ((matchRounds (grammar.skip mode) matcher rounds stop).after attempts trees) := by
  induction rounds with
  | zero => exact fun _ hlength => absurd hlength (Nat.not_lt_zero _)
  | succ rounds ih =>
      intro cursor stop attempts trees hleads hlength hfirst
      have hskip := founded.skips.skip mode stop
      have hnext := hround _ (hleads.trans hskip)
      rw [Answered] at hnext
      rw [matchRounds]
      cases hmatch : matcher (grammar.skip mode stop) with
      | failure last =>
          rw [hmatch] at hnext
          have hend : Concludes grammar mode (.many e) cursor
              (.success (attempts.join last) stop trees) := .manyLast hfirst hnext
          simpa [Outcome.after] using hend
      | success others second more =>
          rw [hmatch] at hnext
          have hread := hnext.matches.leads founded.skips
          have hshorter := hnext.matches.length_lt founded hmoves
          have hskipped := hskip.length_le
          dsimp only at hread hshorter
          exact .manyMore hfirst hnext
            (ih (hleads.trans (hskip.trans hread)) (by omega) hnext)

section Leaves

variable {rounds : Nat} {use : Mode → R → Matcher R}

theorem answered_text (characters : List Char) (mode : Mode) (place : Cursor) :
    Answered grammar mode (.text characters)
      (matchExpr grammar rounds use mode (.text characters)) place := by
  have hread : Concludes grammar mode (.text characters) place _ := .text mode characters place
  rw [Answered, matchExpr]
  cases hdrop : place.drop? characters with
  | none => rwa [hdrop] at hread
  | some stop => rwa [hdrop] at hread

theorem answered_char (accepts : Char → Bool) (mode : Mode) (place : Cursor) :
    Answered grammar mode (.char accepts)
      (matchExpr grammar rounds use mode (.char accepts)) place := by
  have hread : Concludes grammar mode (.char accepts) place _ := .char mode accepts place
  obtain ⟨offset, rest⟩ := place
  cases rest with
  | nil => exact hread
  | cons c rest =>
      rw [Answered, matchExpr]
      rw [Cursor.next?] at hread
      split
      · rename_i haccepts
        rwa [if_pos haccepts] at hread
      · rename_i haccepts
        rwa [if_neg haccepts] at hread

theorem answered_endOfText (mode : Mode) (place : Cursor) :
    Answered grammar mode .endOfText (matchExpr grammar rounds use mode .endOfText) place := by
  have hread : Concludes grammar mode .endOfText place _ := .endOfText mode place
  rw [Answered, matchExpr]
  split
  · rename_i hend
    rwa [if_pos hend] at hread
  · rename_i hend
    rwa [if_neg hend] at hread

end Leaves

/-- Matching an expression does what the grammar says, if the uses of rules do:
at later places, and at this one those that are possible before anything is
read. -/
theorem concludes_matchExpr {rounds : Nat} {use : Mode → R → Matcher R} (allowed : R → Prop)
    {origin : Cursor} (hrounds : origin.rest.length < rounds)
    (hlater : ∀ mode r place, origin.Leads place → place.offset ≠ origin.offset →
      Answered grammar mode (.rule r) (use mode r) place)
    (hhere : ∀ mode r, allowed r → Answered grammar mode (.rule r) (use mode r) origin)
    (e : Expr R) (hmoves : e.moves founded.mayBeEmpty = true) :
    ∀ (mode : Mode) (place : Cursor), origin.Leads place →
      (place = origin → ∀ r ∈ e.starts founded.mayBeEmpty, allowed r) →
        Answered grammar mode e (matchExpr grammar rounds use mode e) place := by
  induction e with
  | text characters => exact fun mode place _ _ => answered_text characters mode place
  | char accepts => exact fun mode place _ _ => answered_char accepts mode place
  | endOfText => exact fun mode place _ _ => answered_endOfText mode place
  | rule r =>
      intro mode place hplace hstarts
      change Answered grammar mode (.rule r) (use mode r) place
      by_cases hoffset : place.offset = origin.offset
      · have horigin := hplace.eq_of_offset_eq hoffset
        have hallowed := hstarts horigin r (by simp [Expr.starts])
        rw [horigin]
        exact hhere mode r hallowed
      · exact hlater mode r place hplace hoffset
  | seq e f ih ihrest =>
      intro mode place hplace hstarts
      obtain ⟨hmovesFirst, hmovesSecond⟩ := Bool.and_eq_true_iff.1 hmoves
      have hfirst := ih hmovesFirst mode place hplace fun horigin r hr =>
        hstarts horigin r (List.mem_append_left _ hr)
      rw [Answered] at hfirst
      rw [Answered, matchExpr]
      cases hmatch : matchExpr grammar rounds use mode e place with
      | failure attempts =>
          rw [hmatch] at hfirst
          exact .seqRefused hfirst
      | success attempts stop trees =>
          rw [hmatch] at hfirst
          have hstop := hfirst.matches.leads founded.skips
          have hskip := founded.skips.skip mode stop
          refine .seq hfirst (ihrest hmovesSecond mode (grammar.skip mode stop)
            (hplace.trans (hstop.trans hskip)) fun horigin r hr => ?_)
          -- back at the origin, the first part has read nothing
          have hle := hplace.offset_le
          have hleStop := hstop.offset_le
          have hleSkip := hskip.offset_le
          rw [horigin] at hleSkip
          dsimp only at hleStop
          have hback : place.offset = origin.offset := by omega
          have hempty := hfirst.matches.mayBeEmpty founded (by dsimp only; omega)
          refine hstarts (hplace.eq_of_offset_eq hback) r ?_
          rw [Expr.starts, if_pos hempty]
          exact List.mem_append_right _ hr
  | alt e f ih ihsecond =>
      intro mode place hplace hstarts
      obtain ⟨hmovesFirst, hmovesSecond⟩ := Bool.and_eq_true_iff.1 hmoves
      have hfirst := ih hmovesFirst mode place hplace fun horigin r hr =>
        hstarts horigin r (List.mem_append_left _ hr)
      rw [Answered] at hfirst
      rw [Answered, matchExpr]
      cases hmatch : matchExpr grammar rounds use mode e place with
      | failure attempts =>
          rw [hmatch] at hfirst
          exact .altSecond hfirst (ihsecond hmovesSecond mode place hplace fun horigin r hr =>
            hstarts horigin r (List.mem_append_right _ hr))
      | success attempts stop trees =>
          rw [hmatch] at hfirst
          exact .altFirst f hfirst
  | optional e ih =>
      intro mode place hplace hstarts
      exact .optional (ih hmoves mode place hplace hstarts)
  | many e ih =>
      intro mode place hplace hstarts
      obtain ⟨hmovesRound, hround⟩ := Bool.and_eq_true_iff.1 hmoves
      rw [Bool.not_eq_true'] at hround
      have hfirst := ih hmovesRound mode place hplace hstarts
      rw [Answered] at hfirst
      rw [Answered, matchExpr]
      cases hmatch : matchExpr grammar rounds use mode e place with
      | failure attempts =>
          rw [hmatch] at hfirst
          exact .manyNone hfirst
      | success attempts stop trees =>
          rw [hmatch] at hfirst
          have hstop := hfirst.matches.leads founded.skips
          have hshorter := hfirst.matches.length_lt founded hround
          have hlength := hplace.length_le
          dsimp only at hstop hshorter
          refine concludes_matchRounds founded hround
            (fun later (hlaterStop : stop.Leads later) => ?_) rounds (.refl _) (by omega) hfirst
          -- behind the first round nothing can be back at the origin
          refine ih hmovesRound mode later (hplace.trans (hstop.trans hlaterStop)) fun horigin => ?_
          have hback := hlaterStop.length_le
          rw [horigin] at hback
          omega
  | «unless» e ih =>
      intro mode place hplace hstarts
      have hinner := ih hmoves mode place hplace hstarts
      rw [Answered] at hinner
      rw [Answered, matchExpr]
      cases hmatch : matchExpr grammar rounds use mode e place with
      | failure attempts =>
          rw [hmatch] at hinner
          exact .unless hinner
      | success attempts stop trees =>
          rw [hmatch] at hinner
          exact .unless hinner

end Expressions

/-! ## Rules -/

/-- Matching a rule does what the grammar says, if it is so at later places, and
uses of rules may nest as deep as the rank of the rule. -/
theorem concludes_matchRule (founded : grammar.Founded) {rounds : Nat}
    {later : Mode → R → Matcher R} {cursor : Cursor} (hrounds : cursor.rest.length < rounds)
    (hlater : ∀ mode r place, cursor.Leads place → place.offset ≠ cursor.offset →
      Answered grammar mode (.rule r) (later mode r) place) (depth : Nat) :
    ∀ (mode : Mode) (rule : R), founded.rank rule < depth →
      Answered grammar mode (.rule rule) (matchRule grammar rounds later depth mode rule)
        cursor := by
  induction depth with
  | zero => exact fun _ rule hrank => absurd hrank (Nat.not_lt_zero _)
  | succ depth ih =>
      intro mode rule hrank
      rw [Answered, matchRule]
      refine .rule (concludes_matchExpr founded (fun r => founded.rank r < depth) hrounds ?_ ?_
        (grammar.body rule) (founded.moves rule) _ cursor (.refl cursor) ?_)
      · intro mode r place hplace hoffset
        unfold Answered
        dsimp only
        rw [if_neg hoffset]
        exact hlater mode r place hplace hoffset
      -- a rule that is used before anything is read has a smaller rank
      · intro mode r hr
        unfold Answered
        dsimp only
        rw [if_pos rfl]
        exact ih mode r hr
      · intro _ r hr
        have hlt := founded.rank_lt rule r hr
        omega

/-! ## Texts -/

/-- The answers at the places of a text are what the grammar says. -/
theorem concludes_lookUp (founded : grammar.Founded) {rounds depth : Nat}
    (hdepth : ∀ r, founded.rank r < depth) (text : List Char) (hrounds : text.length < rounds) :
    ∀ (offset : Nat) (mode : Mode) (rule : R) (place : Cursor),
      Cursor.Leads ⟨offset, text⟩ place →
        Answered grammar mode (.rule rule)
          (lookUp offset (answersFrom grammar rounds depth offset text) mode rule) place := by
  induction text with
  | nil =>
      intro offset mode rule place hplace
      rw [hplace.eq_of_end, Answered, lookUp_end]
      refine concludes_matchRule founded hrounds ?_ depth mode rule (hdepth rule)
      intro mode r place hplace hoffset
      exact absurd (congrArg Cursor.offset hplace.eq_of_end) hoffset
  | cons c text ih =>
      intro offset mode rule place hplace
      have hshorter : text.length < rounds := by
        rw [List.length_cons] at hrounds
        omega
      rcases hplace.eq_or_next with rfl | hnext
      · rw [Answered, lookUp_start]
        refine concludes_matchRule founded hrounds ?_ depth mode rule (hdepth rule)
        intro mode r place hplace hoffset
        rcases hplace.eq_or_next with rfl | hnext
        · exact absurd rfl hoffset
        · exact ih hshorter (offset + c.utf8Size) mode r place hnext
      · rw [Answered, lookUp_later _ _ _ hnext.offset_le]
        exact ih hshorter (offset + c.utf8Size) mode rule place hnext

/-- Reading a text comes to what its rule concludes. -/
theorem concludes_parse (founded : grammar.Founded) {ruleCount : Nat}
    (hrank : ∀ r, founded.rank r ≤ ruleCount) (rule : R) (text : List Char) :
    Concludes grammar .spaced (.rule rule) (.start text) (parse grammar ruleCount rule text) :=
  concludes_lookUp founded (fun r => Nat.lt_succ_of_le (hrank r)) text (Nat.lt_succ_self _) 0
    .spaced rule (.start text) (.refl _)

/-- Reading a text gives what the grammar says of it. -/
theorem derives_parse (founded : grammar.Founded) {ruleCount : Nat}
    (hrank : ∀ r, founded.rank r ≤ ruleCount) (rule : R) (text : List Char) :
    Derives grammar .spaced (.rule rule) (.start text)
      (parse grammar ruleCount rule text).match? :=
  (concludes_parse founded hrank rule text).derives

/-- Every expression whose repetitions read on comes to something everywhere. -/
theorem Grammar.Founded.total (founded : grammar.Founded) {bound : Nat}
    (hrank : ∀ r, founded.rank r < bound) (mode : Mode) {e : Expr R}
    (hmoves : e.moves founded.mayBeEmpty = true) (cursor : Cursor) :
    ∃ outcome, Derives grammar mode e cursor outcome := by
  have huse := concludes_lookUp founded hrank cursor.rest (Nat.lt_succ_self _) cursor.offset
  have hconcludes := concludes_matchExpr founded (fun _ => True) (Nat.lt_succ_self _)
    (fun mode r place hplace _ => huse mode r place hplace)
    (fun mode r _ => huse mode r cursor (.refl cursor)) e hmoves mode cursor (.refl cursor)
    fun _ _ _ => trivial
  exact ⟨_, hconcludes.derives⟩

end EventLoop.Peg
