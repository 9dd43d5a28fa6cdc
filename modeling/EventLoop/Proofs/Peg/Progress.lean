import EventLoop.Proofs.Peg.Derivation
import EventLoop.Proofs.Peg.Soundness

/-!
# Reading on

Matching never goes back in a text (`Matches.leads`), and it goes on unless the
expression is one that may match without reading (`Matches.mayBeEmpty`).

Which expressions may match without reading is computed from what is said of the
rules, and so are the rules that an expression may use before it has read
anything (`Expr.starts`).  A grammar is *founded* if these uses of rules go down
a rank, so that no rule uses itself at the same place, and every round of a
repetition reads something.
-/

namespace EventLoop.Peg

variable {R : Type}

namespace Expr

/-- Whether an expression may match without reading, if some rules may. -/
def mayBeEmpty (empty : R → Bool) : Expr R → Bool
  | .text characters => characters.isEmpty
  | .char _ => false
  | .endOfText | .optional _ | .many _ | .unless _ => true
  | .rule r => empty r
  | .seq e f => e.mayBeEmpty empty && f.mayBeEmpty empty
  | .alt e f => e.mayBeEmpty empty || f.mayBeEmpty empty

/-- The rules that an expression may use before it has read anything. -/
def starts (empty : R → Bool) : Expr R → List R
  | .text _ | .char _ | .endOfText => []
  | .rule r => [r]
  | .seq e f => e.starts empty ++ if e.mayBeEmpty empty then f.starts empty else []
  | .alt e f => e.starts empty ++ f.starts empty
  | .optional e | .many e | .unless e => e.starts empty

/-- Whether every round of a repetition in an expression reads something. -/
def moves (empty : R → Bool) : Expr R → Bool
  | .text _ | .char _ | .endOfText | .rule _ => true
  | .seq e f | .alt e f => e.moves empty && f.moves empty
  | .optional e | .unless e => e.moves empty
  | .many e => e.moves empty && !e.mayBeEmpty empty

end Expr

/-- No rule uses itself at the same place, and repetitions read on. -/
structure Grammar.Founded (grammar : Grammar R) where
  /-- The rules that may match without reading. -/
  mayBeEmpty : R → Bool
  rank : R → Nat
  skips : grammar.Skips
  mayBeEmpty_of_body : ∀ r, (grammar.body r).mayBeEmpty mayBeEmpty = true → mayBeEmpty r = true
  rank_lt : ∀ r, ∀ used ∈ (grammar.body r).starts mayBeEmpty, rank used < rank r
  moves : ∀ r, (grammar.body r).moves mayBeEmpty = true

variable {grammar : Grammar R} {mode : Mode} {e : Expr R} {cursor : Cursor} {result : Match R}

@[simp]
theorem Grammar.record_stop (mode : Mode) (rule : R) (start : Cursor) (result : Match R) :
    (grammar.record mode rule start result).stop = result.stop := by
  unfold Grammar.record
  split <;> rfl

/-- A match reads on. -/
theorem Matches.leads (hskips : grammar.Skips) (h : Matches grammar mode e cursor result) :
    cursor.Leads result.stop := by
  induction h with
  | text h => exact .of_drop? _ h
  | char h => exact .of_next? h
  | endOfText | absent | noMore | «unless» => exact .refl _
  | rule _ ih => rwa [Grammar.record_stop]
  | @seq mode e f cursor first second _ _ ih ihrest =>
      exact ih.trans ((hskips.skip mode first.stop).trans ihrest)
  | altFirst _ _ ih | altSecond _ _ ih | present _ ih | last _ _ ih => exact ih
  | @more mode e cursor first second rest _ _ _ ih _ ihrest =>
      exact ih.trans ((hskips.skip mode first.stop).trans ihrest)

/-- The second part of a sequence matches behind the first. -/
theorem Matches.second {f : Expr R} (hskips : grammar.Skips)
    (h : Matches grammar mode (.seq e f) cursor result) :
    ∃ place last, cursor.Leads place ∧ Matches grammar mode f place last ∧
      result.stop = last.stop := by
  obtain ⟨first, second, hfirst, hsecond, rfl⟩ := h.of_seq
  exact ⟨_, second, (hfirst.leads hskips).trans (hskips.skip mode first.stop), hsecond, rfl⟩

/-- What matches without reading on may do so. -/
theorem Matches.mayBeEmpty (founded : grammar.Founded) (h : Matches grammar mode e cursor result)
    (hoffset : result.stop.offset = cursor.offset) : e.mayBeEmpty founded.mayBeEmpty = true := by
  induction h with
  | @text mode characters cursor stop h =>
      obtain ⟨-, hread⟩ := Cursor.drop?_eq_some_iff.1 h
      dsimp only at hoffset
      exact List.isEmpty_iff.2 (eq_nil_of_byteLength_eq_zero (by omega))
  | @char mode accepts cursor stop h =>
      obtain ⟨offset, rest⟩ := cursor
      cases rest with
      | nil => contradiction
      | cons c rest =>
          obtain ⟨-, hstop⟩ := Option.ite_none_right_eq_some.1 h
          have hpos := c.utf8Size_pos
          rw [← Option.some.inj hstop] at hoffset
          dsimp only at hoffset
          omega
  | endOfText | absent | noMore | «unless» | present | last | more => rfl
  | rule _ ih =>
      rw [Grammar.record_stop] at hoffset
      exact founded.mayBeEmpty_of_body _ (ih hoffset)
  | @seq mode e f cursor first second h hrest ih ihrest =>
      have hfirst := (h.leads founded.skips).offset_le
      have hskip := (founded.skips.skip mode first.stop).offset_le
      have hsecond := (hrest.leads founded.skips).offset_le
      change second.stop.offset = cursor.offset at hoffset
      rw [Expr.mayBeEmpty, ih (by omega), ihrest (by omega), Bool.and_self]
  | altFirst _ _ ih => rw [Expr.mayBeEmpty, ih hoffset, Bool.true_or]
  | altSecond _ _ ih => rw [Expr.mayBeEmpty, ih hoffset, Bool.or_true]

/-- What cannot match without reading gets closer to the end of the text. -/
theorem Matches.length_lt (founded : grammar.Founded) (h : Matches grammar mode e cursor result)
    (hmoves : e.mayBeEmpty founded.mayBeEmpty = false) :
    result.stop.rest.length < cursor.rest.length := by
  have hleads := h.leads founded.skips
  obtain ⟨read, hrest, hoffset⟩ := hleads
  rw [hrest, List.length_append]
  -- nothing read is a match that leaves the place as it was
  cases read with
  | nil =>
      have hempty := h.mayBeEmpty founded (by simpa [byteLength] using hoffset)
      rw [hmoves] at hempty
      contradiction
  | cons c read =>
      rw [List.length_cons]
      omega

end EventLoop.Peg
