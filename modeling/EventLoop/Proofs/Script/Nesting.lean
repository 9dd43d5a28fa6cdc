import EventLoop.Proofs.Script.Founded

/-!
# Brackets and quotes

`Nesting` is where a text stands with respect to brackets and quotes when it is read
from left to right, and a text is `Balanced` if it ends where it started, outside all
of them.

Which nesting an expression of the grammar leads to is computed from the expression
(`Expr.keeps`): what holds of the nesting behind an expression is checked by going
back from there, through literal texts and character classes, and a rule leads to
where it started.  The bodies of all rules pass this check (`keeps_body`), and so the
text that a rule matches is balanced (`Matches.keeps`), if there are no slashes and no
backticks in it: comments, templates and regular expressions are read without regard
to brackets and quotes.
-/

namespace EventLoop.Script

open Peg

/-- Where a text stands with respect to brackets and quotes. -/
inductive Nesting where
  /-- Between brackets that wait for these closing ones, the innermost first. -/
  | code (closers : List Char)
  /-- Behind a quote. -/
  | quoted (quote : Char) (closers : List Char)
  /-- Behind a backslash that is behind a quote. -/
  | escaped (quote : Char) (closers : List Char)
  /-- Behind a bracket that closes none, or a line end that a quote does not reach
  over. -/
  | broken
  deriving DecidableEq

namespace Nesting

/-- The nesting behind a character. -/
def step : Nesting → Char → Nesting
  | .code closers, c =>
    if c = '(' then .code (')' :: closers)
    else if c = '[' then .code (']' :: closers)
    else if c = '\x7b' then .code ('\x7d' :: closers)
    else if c = ')' ∨ c = ']' ∨ c = '\x7d' then
      if closers.head? = some c then .code closers.tail else .broken
    else if c = '\x22' ∨ c = '\x27' then .quoted c closers
    else .code closers
  | .quoted quote closers, c =>
    if c = quote then .code closers
    else if c = '\\' then .escaped quote closers
    else if isLineEnd c then .broken
    else .quoted quote closers
  | .escaped quote closers, _ => .quoted quote closers
  | .broken, _ => .broken

/-- The nesting behind a text. -/
def steps (nesting : Nesting) (text : List Char) : Nesting :=
  text.foldl step nesting

end Nesting

/-- The brackets and the quotes of a text balance. -/
def Balanced (text : List Char) : Prop :=
  Nesting.steps (.code []) text = .code []

instance (text : List Char) : Decidable (Balanced text) :=
  inferInstanceAs (Decidable (_ = _))

/-- A bracket in a quoted text is none, and neither is a quote behind a backslash. -/
example : Balanced "f('(', \"\\\")\", [1])".toList := by decide

namespace Nesting

variable {nesting next : Nesting}

@[simp]
theorem steps_nil (nesting : Nesting) : nesting.steps [] = nesting :=
  rfl

@[simp]
theorem steps_cons (nesting : Nesting) (c : Char) (text : List Char) :
    nesting.steps (c :: text) = (nesting.step c).steps text :=
  rfl

theorem steps_append (nesting : Nesting) (first rest : List Char) :
    nesting.steps (first ++ rest) = (nesting.steps first).steps rest :=
  List.foldl_append

@[simp]
theorem steps_broken (text : List Char) : broken.steps text = broken := by
  induction text with
  | nil => rfl
  | cons c text ih => exact ih

/-! ## Inside other brackets -/

/-- The same nesting inside other brackets. -/
def within (outer : List Char) : Nesting → Nesting
  | .code closers => .code (closers ++ outer)
  | .quoted quote closers => .quoted quote (closers ++ outer)
  | .escaped quote closers => .escaped quote (closers ++ outer)
  | .broken => .broken

section

variable (outer closers : List Char) (quote : Char)

@[simp]
theorem within_code : (code closers).within outer = code (closers ++ outer) :=
  rfl

@[simp]
theorem within_quoted : (quoted quote closers).within outer = quoted quote (closers ++ outer) :=
  rfl

@[simp]
theorem within_escaped : (escaped quote closers).within outer = escaped quote (closers ++ outer) :=
  rfl

end

@[simp]
theorem within_nil (nesting : Nesting) : nesting.within [] = nesting := by
  cases nesting <;> simp [within]

/-- A nesting without the brackets around. -/
def bare : Nesting → Nesting
  | .code _ => .code []
  | .quoted quote _ => .quoted quote []
  | .escaped quote _ => .escaped quote []
  | .broken => .broken

theorem exists_within_bare (nesting : Nesting) :
    ∃ closers, ∀ outer, nesting.within outer = nesting.bare.within (closers ++ outer) := by
  cases nesting with
  | code closers => exact ⟨closers, fun _ => rfl⟩
  | quoted quote closers => exact ⟨closers, fun _ => rfl⟩
  | escaped quote closers => exact ⟨closers, fun _ => rfl⟩
  | broken => exact ⟨[], fun _ => rfl⟩

/-- What does not break a nesting does the same inside other brackets. -/
theorem step_within {c : Char} (h : nesting.step c ≠ .broken) (outer : List Char) :
    (nesting.within outer).step c = (nesting.step c).within outer := by
  cases nesting with
  | code closers =>
      simp only [step, within_code] at h ⊢
      split
      · rfl
      split
      · rfl
      split
      · rfl
      split
      · cases closers with
        | nil => simp_all
        | cons top closers => by_cases htop : top = c <;> simp_all
      split <;> rfl
  | quoted quote closers =>
      simp only [step, within_quoted]
      split
      · rfl
      split
      · rfl
      split <;> rfl
  | escaped => rfl
  | broken => rfl

theorem steps_within {text : List Char} (h : nesting.steps text ≠ .broken) (outer : List Char) :
    (nesting.within outer).steps text = (nesting.steps text).within outer := by
  induction text generalizing nesting with
  | nil => rfl
  | cons c text ih =>
      have hstep : nesting.step c ≠ .broken := by
        intro hbroken
        rw [steps_cons, hbroken, steps_broken] at h
        exact h rfl
      rw [steps_cons, step_within hstep, steps_cons]
      exact ih h

/-! ## Characters -/

/-- The characters that make a difference. -/
def marks : Nesting → List Char
  | .code _ => ['(', ')', '[', ']', '\x7b', '\x7d', '\x22', '\x27']
  | .quoted quote _ => [quote, '\\', '\n', '\r']
  | .escaped _ _ | .broken => []

/-- The nesting behind any other character. -/
def pass : Nesting → Nesting
  | .escaped quote closers => .quoted quote closers
  | nesting => nesting

theorem step_of_not_mem {c : Char} (h : c ∉ nesting.marks) : nesting.step c = nesting.pass := by
  cases nesting with
  | code closers =>
      simp only [marks, List.mem_cons, List.not_mem_nil, or_false, not_or] at h
      simp [step, pass, h]
  | quoted quote closers =>
      simp only [marks, List.mem_cons, List.not_mem_nil, or_false, not_or] at h
      simp [step, pass, isLineEnd, h]
  | escaped | broken => rfl

/-- Reading a text leads from one nesting to another, inside whatever brackets. -/
def Reads (nesting : Nesting) (text : List Char) (next : Nesting) : Prop :=
  ∀ outer, (nesting.within outer).steps text = next.within outer

namespace Reads

variable {last : Nesting} {text others : List Char}

theorem refl (nesting : Nesting) : nesting.Reads [] nesting :=
  fun _ => rfl

theorem trans (h : nesting.Reads text next) (hnext : next.Reads others last) :
    nesting.Reads (text ++ others) last := by
  intro outer
  rw [steps_append, h outer, hnext outer]

theorem steps (h : nesting.Reads text next) : nesting.steps text = next := by
  have hbare := h []
  rwa [within_nil, within_nil] at hbare

theorem of_steps (h : nesting.steps text ≠ .broken) : nesting.Reads text (nesting.steps text) :=
  steps_within h

/-- What is read within a bare nesting is read within the nesting itself. -/
theorem of_bare (h : nesting.bare.Reads text nesting.bare) : nesting.Reads text nesting := by
  obtain ⟨closers, hclosers⟩ := nesting.exists_within_bare
  intro outer
  rw [hclosers, h]

end Reads

end Nesting

/-! ## Layout -/

/-- Where there is no slash, layout is blanks. -/
theorem skipLayout_blanks {text : List Char} (hslash : '/' ∉ text) (offset : Nat) :
    ∃ blanks, text = blanks ++ (skipLayout ⟨offset, text⟩).rest ∧
      (∀ c ∈ blanks, isLayoutBlank c = true) ∧
      ∀ c ∈ (skipLayout ⟨offset, text⟩).rest.head?, isLayoutBlank c = false := by
  unfold skipLayout
  dsimp only
  induction text generalizing offset with
  | nil => exact ⟨[], rfl, List.forall_mem_nil _, by simp [skipFrom]⟩
  | cons c text ih =>
      obtain ⟨hc, htext⟩ := not_or.1 (mt List.mem_cons.2 hslash)
      have hskip : skipFrom .blanks offset (c :: text) =
          if isLayoutBlank c then skipFrom .blanks (offset + c.utf8Size) text
          else ⟨offset, c :: text⟩ := by
        rw [skipFrom]
        · rintro rest rfl
          exact absurd rfl hc
        · rintro rest rfl
          exact absurd rfl hc
      rw [hskip]
      by_cases hblank : isLayoutBlank c = true
      · obtain ⟨blanks, hrest, hblanks, hhead⟩ := ih htext (offset + c.utf8Size)
        rw [if_pos hblank]
        exact ⟨c :: blanks, by rw [List.cons_append, ← hrest],
          List.forall_mem_cons.2 ⟨hblank, hblanks⟩, hhead⟩
      · rw [if_neg hblank]
        refine ⟨[], rfl, List.forall_mem_nil _, fun d hd => ?_⟩
        rw [← Option.some.inj hd]
        exact Bool.eq_false_iff.2 hblank

theorem skip_blanks (mode : Mode) {place : Cursor} (hslash : '/' ∉ place.rest) :
    ∃ blanks, place.rest = blanks ++ (grammar.skip mode place).rest ∧
      ∀ c ∈ blanks, isLayoutBlank c = true := by
  unfold Grammar.skip
  split
  · obtain ⟨blanks, hrest, hblanks, -⟩ := skipLayout_blanks hslash place.offset
    exact ⟨blanks, hrest, hblanks⟩
  · exact ⟨[], rfl, List.forall_mem_nil _⟩

theorem Nesting.reads_blanks {blanks : List Char} (h : ∀ c ∈ blanks, isLayoutBlank c = true)
    (closers : List Char) : (Nesting.code closers).Reads blanks (.code closers) := by
  intro outer
  induction blanks with
  | nil => rfl
  | cons c blanks ih =>
      obtain ⟨hc, hblanks⟩ := List.forall_mem_cons.1 h
      have hmark : c ∉ (Nesting.code (closers ++ outer)).marks := by
        intro hmark
        simp only [marks, List.mem_cons, List.not_mem_nil, or_false] at hmark
        rcases hmark with rfl | rfl | rfl | rfl | rfl | rfl | rfl | rfl <;> contradiction
      rw [within_code, steps_cons, step_of_not_mem hmark]
      exact ih hblanks

/-! ## What rules read -/

/-- The nesting that a rule starts in, inside whatever brackets.  Behind a backtick and
behind a slash nothing is known. -/
def entry : Rule → Option Nesting
  | .dqChars => some (.quoted '\x22' [])
  | .sqChars => some (.quoted '\x27' [])
  | .templateChars | .templateSub | .regexBody | .regexFlags => none
  | _ => some (.code [])

/-- A slash and a backtick start what is read without regard to brackets and
quotes. -/
def isOpaque (c : Char) : Bool :=
  c = '/' || c = '\x60'

namespace Nesting

/-- Whether layout may stand here. -/
def allows (mode : Mode) : Nesting → Bool
  | .code _ => true
  | _ => mode ≠ .spaced

/-- Whether reading a character does not break the nesting and leads to one of some
kind. -/
def leads (nesting : Nesting) (holds : Nesting → Bool) : Bool :=
  nesting ≠ .broken && holds nesting

end Nesting

/-- Whether a match of an expression leads from a nesting to one of some kind, if the
rules in it lead to where they started. -/
def keeps (mode : Mode) : Peg.Expr Rule → Nesting → (Nesting → Bool) → Bool
  | .text characters, nesting, holds =>
    characters.any isOpaque || (nesting.steps characters).leads holds
  | .char accepts, nesting, holds =>
    nesting.pass.leads holds &&
      nesting.marks.all fun c => !accepts c || (nesting.step c).leads holds
  | .endOfText, nesting, holds | .unless _, nesting, holds => holds nesting
  | .rule r, nesting, holds =>
    (kind r ≠ .hidden || mode = .token) && entry r = some nesting.bare && holds nesting
  | .seq e f, nesting, holds =>
    keeps mode e nesting fun next => next.allows mode && keeps mode f next holds
  | .alt e f, nesting, holds => keeps mode e nesting holds && keeps mode f nesting holds
  | .optional e, nesting, holds => holds nesting && keeps mode e nesting holds
  | .many e, nesting, holds =>
    nesting.allows mode && holds nesting && keeps mode e nesting fun next => next = nesting

/-- The bodies of all rules lead to where they started. -/
theorem keeps_body (rule : Rule) (mode : Mode) (hmode : kind rule = .hidden → mode = .token)
    {nesting : Nesting} (hentry : entry rule = some nesting) :
    keeps ((kind rule).modeIn mode) (body rule) nesting (fun next => next = nesting) = true := by
  cases rule <;> first
    | contradiction
    | (obtain rfl := Option.some.inj hentry
       first
         | (obtain rfl := hmode rfl; decide)
         | (cases mode <;> decide))

namespace Nesting

variable {nesting : Nesting} {holds : Nesting → Bool}

theorem leads_iff : nesting.leads holds = true ↔ nesting ≠ .broken ∧ holds nesting = true := by
  simp [leads]

/-- Layout does not change a nesting that allows it. -/
theorem reads_skip {mode : Mode} (h : nesting.allows mode = true) {place : Cursor}
    (hslash : '/' ∉ place.rest) :
    ∃ layout, place.rest = layout ++ (grammar.skip mode place).rest ∧
      nesting.Reads layout nesting := by
  by_cases hmode : mode = .spaced
  · obtain ⟨blanks, hrest, hblanks⟩ := skip_blanks mode hslash
    cases nesting with
    | code closers => exact ⟨blanks, hrest, reads_blanks hblanks closers⟩
    | _ => simp [allows, hmode] at h
  · rw [Grammar.skip, if_neg hmode]
    exact ⟨[], rfl, .refl nesting⟩

end Nesting

/-- A text without slashes and backticks. -/
def Transparent (text : List Char) : Prop :=
  ∀ c ∈ text, isOpaque c = false

namespace Transparent

variable {first rest : List Char}

theorem of_append (h : Transparent (first ++ rest)) : Transparent first ∧ Transparent rest :=
  List.forall_mem_append.1 h

theorem slash_not_mem (h : Transparent rest) : '/' ∉ rest :=
  fun hmem => nomatch h '/' hmem

theorem of_leads {place later : Cursor} (h : Transparent place.rest) (hleads : place.Leads later) :
    Transparent later.rest := by
  obtain ⟨read, hrest, -⟩ := hleads
  rw [hrest] at h
  exact h.of_append.2

end Transparent

/-- What an expression reads leads to a nesting that is allowed for. -/
theorem reads_of_keeps {mode : Mode} {e : Peg.Expr Rule} {cursor : Cursor} {result : Match Rule}
    (h : Matches grammar mode e cursor result) (hplain : Transparent cursor.rest) :
    ∀ {nesting : Nesting} {holds : Nesting → Bool}, keeps mode e nesting holds = true →
      ∃ read next, cursor.rest = read ++ result.stop.rest ∧ nesting.Reads read next ∧
        holds next = true := by
  induction h with
  | @text mode characters cursor stop h =>
      intro nesting holds hkeeps
      obtain ⟨hrest, -⟩ := Cursor.drop?_eq_some_iff.1 h
      refine ⟨characters, nesting.steps characters, hrest, ?_⟩
      rcases Bool.or_eq_true_iff.1 hkeeps with hopaque | hleads
      · obtain ⟨c, hc, hopaque⟩ := List.any_eq_true.1 hopaque
        rw [hplain c (by rw [hrest]; exact List.mem_append_left _ hc)] at hopaque
        contradiction
      · obtain ⟨hbroken, hholds⟩ := Nesting.leads_iff.1 hleads
        exact ⟨.of_steps hbroken, hholds⟩
  | @char mode accepts cursor stop h =>
      intro nesting holds hkeeps
      obtain ⟨offset, rest⟩ := cursor
      cases rest with
      | nil => contradiction
      | cons c rest =>
          obtain ⟨haccepts, hstop⟩ := Option.ite_none_right_eq_some.1 h
          obtain rfl := Option.some.inj hstop
          obtain ⟨hpass, hmarks⟩ := Bool.and_eq_true_iff.1 hkeeps
          refine ⟨[c], nesting.step c, rfl, ?_⟩
          have hleads : (nesting.step c).leads holds = true := by
            by_cases hc : c ∈ nesting.marks
            · have hmark := List.all_eq_true.1 hmarks c hc
              rwa [haccepts, Bool.not_true, Bool.false_or] at hmark
            · rwa [Nesting.step_of_not_mem hc]
          obtain ⟨hbroken, hholds⟩ := Nesting.leads_iff.1 hleads
          exact ⟨.of_steps hbroken, hholds⟩
  | endOfText mode offset =>
      intro nesting holds hkeeps
      exact ⟨[], nesting, rfl, .refl nesting, hkeeps⟩
  | @rule mode r cursor result h ih =>
      intro nesting holds hkeeps
      simp only [keeps, Bool.and_eq_true, Bool.or_eq_true, decide_eq_true_eq] at hkeeps
      obtain ⟨⟨hmode, hentry⟩, hholds⟩ := hkeeps
      have hbody := keeps_body r mode (fun hkind => hmode.resolve_left (not_not_intro hkind)) hentry
      obtain ⟨read, next, hrest, hreads, hnext⟩ := ih hplain hbody
      obtain rfl := of_decide_eq_true hnext
      refine ⟨read, nesting, ?_, .of_bare hreads, hholds⟩
      rw [Grammar.record_stop]
      exact hrest
  | @seq mode e f cursor first second h hrest ih ihrest =>
      intro nesting holds hkeeps
      obtain ⟨read, next, hread, hreads, hnext⟩ := ih hplain hkeeps
      obtain ⟨hallows, hkeepsNext⟩ := Bool.and_eq_true_iff.1 hnext
      rw [hread] at hplain
      have hplainNext := hplain.of_append.2
      obtain ⟨layout, hlayout, hreadsLayout⟩ :=
        Nesting.reads_skip hallows hplainNext.slash_not_mem
      rw [hlayout] at hplainNext
      obtain ⟨others, last, hothers, hreadsOthers, hlast⟩ :=
        ihrest hplainNext.of_append.2 hkeepsNext
      refine ⟨read ++ (layout ++ others), last, ?_, hreads.trans (hreadsLayout.trans hreadsOthers),
        hlast⟩
      rw [hread, hlayout, hothers, List.append_assoc, List.append_assoc]
      rfl
  | altFirst f h ih =>
      intro nesting holds hkeeps
      exact ih hplain (Bool.and_eq_true_iff.1 hkeeps).1
  | altSecond _ h ih =>
      intro nesting holds hkeeps
      exact ih hplain (Bool.and_eq_true_iff.1 hkeeps).2
  | absent h =>
      intro nesting holds hkeeps
      exact ⟨[], nesting, rfl, .refl nesting, (Bool.and_eq_true_iff.1 hkeeps).1⟩
  | present h ih =>
      intro nesting holds hkeeps
      exact ih hplain (Bool.and_eq_true_iff.1 hkeeps).2
  | noMore h =>
      intro nesting holds hkeeps
      obtain ⟨hhere, -⟩ := Bool.and_eq_true_iff.1 hkeeps
      exact ⟨[], nesting, rfl, .refl nesting, (Bool.and_eq_true_iff.1 hhere).2⟩
  | last h hend ih =>
      intro nesting holds hkeeps
      obtain ⟨hhere, hround⟩ := Bool.and_eq_true_iff.1 hkeeps
      obtain ⟨read, next, hread, hreads, hnext⟩ := ih hplain hround
      obtain rfl := of_decide_eq_true hnext
      exact ⟨read, _, hread, hreads, (Bool.and_eq_true_iff.1 hhere).2⟩
  | @more mode e cursor first second rest h hnext hrest ih _ ihrest =>
      intro nesting holds hkeeps
      obtain ⟨hhere, hround⟩ := Bool.and_eq_true_iff.1 hkeeps
      obtain ⟨read, next, hread, hreads, hback⟩ := ih hplain hround
      obtain rfl := of_decide_eq_true hback
      rw [hread] at hplain
      have hplainNext := hplain.of_append.2
      obtain ⟨layout, hlayout, hreadsLayout⟩ :=
        Nesting.reads_skip (Bool.and_eq_true_iff.1 hhere).1 hplainNext.slash_not_mem
      rw [hlayout] at hplainNext
      obtain ⟨others, last, hothers, hreadsOthers, hlast⟩ :=
        ihrest hplainNext.of_append.2 hkeeps
      refine ⟨read ++ (layout ++ others), last, ?_, hreads.trans (hreadsLayout.trans hreadsOthers),
        hlast⟩
      rw [hread, hlayout, hothers, List.append_assoc, List.append_assoc]
      rfl
  | «unless» h =>
      intro nesting holds hkeeps
      exact ⟨[], nesting, rfl, .refl nesting, hkeeps⟩

/-- What a rule reads leads to where it started. -/
theorem reads_rule {mode : Mode} {r : Rule} {cursor : Cursor} {result : Match Rule}
    (h : Matches grammar mode (.rule r) cursor result) (hplain : Transparent cursor.rest)
    (nesting : Nesting) (hentry : entry r = some nesting.bare)
    (hmode : kind r ≠ .hidden ∨ mode = .token) :
    ∃ read, cursor.rest = read ++ result.stop.rest ∧ nesting.Reads read nesting := by
  have hkeeps : keeps mode (.rule r) nesting (fun next => next = nesting) = true := by
    simpa [keeps, hentry] using hmode
  obtain ⟨read, next, hrest, hreads, hnext⟩ := reads_of_keeps h hplain hkeeps
  obtain rfl := of_decide_eq_true hnext
  exact ⟨read, hrest, hreads⟩

end EventLoop.Script
