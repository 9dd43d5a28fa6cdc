import EventLoop.Proofs.Peg.Language
import EventLoop.Proofs.Peg.Record
import EventLoop.Proofs.Script.Words

/-!
# Where rules start

Rules do not start in the middle of a word (`atSeam_of_derived`), because what is read before
them, layout included, does not end in one.  Only the pieces of a template do, which begin where
its characters say so.
-/

namespace EventLoop.Script

open Peg

/-- Rules that may start in the middle of a name. -/
def isPiece : Rule → Bool
  | .templateChars | .templateSub => true
  | _ => false

/-- Whether no name goes on behind an expression, where it may be known that none goes on before
it. -/
def sealsFrom (known : Bool) (e : Peg.Expr Rule) : Bool :=
  seals e && (known || !e.mayBeEmpty mayBeEmpty)

theorem sealsFrom_sealsFrom (known : Bool) (e : Peg.Expr Rule) :
    sealsFrom (sealsFrom known e) e = sealsFrom known e := by
  unfold sealsFrom
  cases seals e <;> cases e.mayBeEmpty mayBeEmpty <;> cases known <;> rfl

/-- Whether the rules that an expression records start where no name goes on, where it may be known
that none goes on before it. -/
def aligns : Bool → Peg.Expr Rule → Bool
  | _, .text _ | _, .char _ | _, .endOfText | _, .unless _ => true
  | known, .rule r => kind r ≠ .hidden && (known || isPiece r)
  | known, .seq e f => aligns known e && aligns (sealsFrom known e) f
  | known, .alt e f => aligns known e && aligns known f
  | known, .optional e => aligns known e
  | known, .many e => aligns known e && aligns (sealsFrom known e) e

theorem aligns_body (rule : Rule) (htoken : kind rule ≠ .token) (hhidden : kind rule ≠ .hidden) :
    aligns (!isPiece rule) (body rule) = true := by
  cases rule <;> first | contradiction | decide

variable {text : List Char} {mode : Mode} {known : Bool} {cursor : Cursor} {result : Match Rule}

/-- Behind an expression no name goes on, if it says so. -/
theorem atSeam_of_sealsFrom {e : Peg.Expr Rule} (h : Matches grammar mode e cursor result)
    (hseals : sealsFrom known e = true) (hsuffix : cursor.rest <:+ text)
    (hknown : known = true → AtSeam text cursor.rest) :
    AtSeam text (grammar.skip mode result.stop).rest := by
  obtain ⟨hread, hmoves⟩ := Bool.and_eq_true_iff.1 hseals
  refine AtSeam.skip mode ?_
  rcases Bool.or_eq_true_iff.1 hmoves with hyes | hsome
  · exact (hknown hyes).trans (atSeam_of_seals h hread)
  · refine (atSeam_of_seals h hread).of_read hsuffix fun heq => ?_
    have hstop := (h.leads skips_grammar).eq_of_rest_eq heq.symm
    have hempty := h.mayBeEmpty founded (congrArg Cursor.offset hstop)
    rw [show e.mayBeEmpty mayBeEmpty = true from hempty] at hsome
    contradiction

/-- **What an expression records starts where no name goes on**, but for the pieces of
templates. -/
theorem atSeam_of_aligns {e : Peg.Expr Rule} (h : Matches grammar mode e cursor result)
    (hmode : mode ≠ .token) (haligns : aligns known e = true) (hsuffix : cursor.rest <:+ text)
    (hknown : known = true → AtSeam text cursor.rest) :
    ∀ tree ∈ result.trees, isPiece tree.rule = false → AtSeam text tree.start.rest := by
  -- Along a sequence it becomes known that no name goes on, so `known` is general.
  induction h generalizing known with
  | text | char | endOfText | absent | noMore | «unless» => exact List.forall_mem_nil _
  | @rule mode r cursor result h =>
      obtain ⟨hkind, hstarts⟩ := Bool.and_eq_true_iff.1 haligns
      have hrecorded : ¬ (grammar.kind r = .hidden ∨ mode = .token) :=
        not_or.2 ⟨of_decide_eq_true hkind, hmode⟩
      rw [Grammar.record, if_neg hrecorded]
      refine List.forall_mem_singleton.2 fun hpiece => hknown ?_
      exact (Bool.or_eq_true_iff.1 hstarts).resolve_right (Bool.eq_false_iff.1 hpiece)
  | @seq mode e f cursor first second h hrest ih ihrest =>
      obtain ⟨he, hf⟩ := Bool.and_eq_true_iff.1 haligns
      have hbehind := ((h.leads skips_grammar).trans (skips_grammar.skip mode first.stop)).suffix
      refine List.forall_mem_append.2 ⟨ih hmode he hsuffix hknown, ?_⟩
      exact ihrest hmode hf (hbehind.trans hsuffix)
        fun hseals => atSeam_of_sealsFrom h hseals hsuffix hknown
  | altFirst _ _ ih => exact ih hmode (Bool.and_eq_true_iff.1 haligns).1 hsuffix hknown
  | altSecond _ _ ih => exact ih hmode (Bool.and_eq_true_iff.1 haligns).2 hsuffix hknown
  | present _ ih => exact ih hmode haligns hsuffix hknown
  | last _ _ ih => exact ih hmode (Bool.and_eq_true_iff.1 haligns).1 hsuffix hknown
  | @more mode e cursor first second rest h _ _ ih _ ihrest =>
      obtain ⟨hfirst, hlater⟩ := Bool.and_eq_true_iff.1 haligns
      have hbehind := ((h.leads skips_grammar).trans (skips_grammar.skip mode first.stop)).suffix
      have hrounds : aligns (sealsFrom known e) (.many e) = true := by
        rw [aligns, sealsFrom_sealsFrom, hlater]
        rfl
      refine List.forall_mem_append.2 ⟨ih hmode hfirst hsuffix hknown, ?_⟩
      exact ihrest hmode hrounds (hbehind.trans hsuffix)
        fun hseals => atSeam_of_sealsFrom h hseals hsuffix hknown

/-- The children of a tree start where no name goes on. -/
theorem atSeam_of_derived {rule : Rule} {start stop : Cursor} {children : List (Peg.Tree Rule)}
    (h : Tree.Derived grammar (.node rule start stop children)) (hsuffix : start.rest <:+ text)
    (hstart : isPiece rule = false → AtSeam text start.rest) :
    ∀ child ∈ children, isPiece child.rule = false → AtSeam text child.start.rest := by
  by_cases htoken : kind rule = .token
  · rw [children_eq_nil h htoken]
    exact List.forall_mem_nil _
  · cases h with
    | @node mode _ _ _ _ hmode hkind _ hbody _ =>
        have hinside : (grammar.kind rule).modeIn mode ≠ .token := by
          change (kind rule).modeIn mode ≠ .token
          cases hrule : kind rule <;> first | exact hmode | contradiction | exact nofun
        exact atSeam_of_aligns hbody hinside (aligns_body rule htoken hkind) hsuffix
          fun hpiece => hstart (by simpa using hpiece)

/-- A token that records nothing spells what its rule says. -/
theorem spells_of_derived {rule : Rule} (htoken : kind rule = .token)
    (hplain : (body rule).mentions = []) {start stop : Cursor} {children : List (Peg.Tree Rule)}
    (h : Tree.Derived grammar (.node rule start stop children)) :
    (body rule).Spells (start.textTo stop) := by
  cases h with
  | @node mode _ _ _ _ _ _ _ hbody _ =>
      have hmode : (grammar.kind rule).modeIn mode ≠ .spaced := by
        change (kind rule).modeIn mode ≠ .spaced
        rw [htoken]
        exact nofun
      obtain ⟨read, hspells, hrest, hoffset⟩ := hbody.spells hmode hplain
      rw [Cursor.textTo_eq hrest hoffset]
      exact hspells

/-- The end of a word spells nothing. -/
theorem spells_of_wordEnd {e : Peg.Expr Rule} {read : List Char}
    (h : (Peg.Expr.seq e wordEnd).Spells read) : e.Spells read := by
  obtain ⟨token, nothing, htoken, hnothing, rfl⟩ := Expr.spells_seq.1 h
  rwa [Expr.spells_unless.1 hnothing, List.append_nil]

/-- Behind the tree of a word there is no name. -/
theorem startsInName_of_derived {rule : Rule} (hrule : isWordRule rule = true)
    {start stop : Cursor} {children : List (Peg.Tree Rule)}
    (h : Tree.Derived grammar (.node rule start stop children)) :
    startsInName stop.rest = false := by
  cases h with
  | @node mode _ _ _ _ _ _ _ hbody _ =>
      change Matches grammar ((kind rule).modeIn mode) (body rule) start ⟨stop, children⟩ at hbody
      rw [kind_of_isWordRule hrule] at hbody
      exact startsInName_of_isWordRule hrule hbody

end EventLoop.Script
