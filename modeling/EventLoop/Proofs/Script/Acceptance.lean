import EventLoop.Proofs.Script.Readable
import EventLoop.Proofs.Script.Words

/-!
# Which texts are scripts

A text without slashes and backticks, and without the words that start the clauses of
a choice, is a script if and only if its brackets and quotes balance
(`parse_iff_balanced`).

If it is a script, then it is balanced because all that rules read is.  Conversely,
where statements end in a balanced text there is nothing left but layout: anything else
would start another statement, if only one of raw text (`accepts_statement`).
-/

namespace EventLoop.Script

open Peg

theorem accepts_oneOf {mode : Mode} {e : Peg.Expr Rule} {es : List (Peg.Expr Rule)} {cursor : Cursor}
    (he : e ∈ es) (h : Accepts mode e cursor)
    (hmoves : es.all (·.moves mayBeEmpty) = true) : Accepts mode (oneOf es) cursor := by
  induction es with
  | nil => contradiction
  | cons first rest ih =>
      obtain ⟨hfirst, hrest⟩ := Bool.and_eq_true_iff.1 hmoves
      cases rest with
      | nil => rwa [← List.mem_singleton.1 he]
      | cons second rest =>
          rcases List.mem_cons.1 he with rfl | hbehind
          · exact h.altFirst _
          · exact (ih hbehind hrest).altSecond hfirst

/-! ## Statements -/

/-- A keyword stands where it matches. -/
theorem hasWord_of_matches {s : String} {r : Rule} (hkind : kind r = .token) (hbody : body r = word s)
    (hname : ∀ rest, startsInName (s.toList ++ rest) = true) {before : List Char} {place : Cursor}
    {result : Match Rule} (h : Matches grammar .token (.rule r) place result)
    (hseam : Seam before place.rest) : HasWord s (before ++ place.rest) := by
  obtain ⟨inner, hinner, -⟩ := h.of_rule
  change Matches grammar ((kind r).modeIn .token) (body r) place inner at hinner
  rw [hkind, hbody] at hinner
  have hafter := startsInName_of_wordEnd hinner
  cases hinner with
  | seq htext hend =>
      cases hend with
      | «unless» =>
          cases htext with
          | text hdrop =>
              obtain ⟨hrest, -⟩ := Cursor.drop?_eq_some_iff.1 hdrop
              rw [Seam, hrest, hname] at hseam
              refine ⟨before, _, ?_, hseam.resolve_right (by simp), hafter⟩
              rw [hrest, List.append_assoc]
              rfl

/-- A statement starts at every place where a balanced text goes on. -/
theorem accepts_statement {before : List Char} (offset : Nat) {c : Char} {rest : List Char}
    (hplain : Transparent (c :: rest)) (hblank : isLayoutBlank c = false)
    (hsteps : (Nesting.code []).steps (c :: rest) = .code []) (hseam : Seam before (c :: rest))
    (hcase : ¬ HasWord "case" (before ++ c :: rest))
    (hdefault : ¬ HasWord "default" (before ++ c :: rest)) :
    Accepts .spaced (.rule .statement) ⟨offset, c :: rest⟩ := by
  by_cases hsemicolon : c = ';'
  · subst hsemicolon
    have hempty : Accepts .spaced (.rule .emptyStmt) ⟨offset, ';' :: rest⟩ := .rule ⟨_, .text rfl⟩
    exact .rule ((hempty.altFirst _).altSecond rfl)
  · have hends : endsRaw c = false := by
      simp only [isLayoutBlank, Bool.or_eq_false_iff, decide_eq_false_iff_not] at hblank
      simp [endsRaw, isLineEnd, hblank, hsemicolon]
    have hwords : Derives grammar .token (oneOf [Rule.kwCase, Rule.kwDefault] : Peg.Expr Rule)
        ⟨offset, c :: rest⟩ none := by
      refine .altSecond ?_ ?_
      · refine (matches_or_refused .token rfl _).resolve_left ?_
        rintro ⟨_, hkeyword⟩
        exact hcase (hasWord_of_matches rfl rfl (fun _ => rfl) hkeyword hseam)
      · refine (matches_or_refused .token rfl _).resolve_left ?_
        rintro ⟨_, hkeyword⟩
        exact hdefault (hasWord_of_matches rfl rfl (fun _ => rfl) hkeyword hseam)
    -- whatever the other statements make of the text, raw text is tried last and accepts it
    obtain ⟨unit, hunit⟩ := accepts_unknownUnit offset hends hplain (.inl hsteps)
    obtain ⟨units, hunits⟩ :
        Accepts .token (.many (all [inlineSpaces, unknownUnit])) unit.stop := .many rfl
    obtain ⟨last, hlast⟩ :
        Accepts .token (.optional (all [inlineSpaces, ";"])) units.stop := .optional rfl
    have hraw : Accepts .spaced (.rule .unknownStmt) ⟨offset, c :: rest⟩ :=
      .rule ⟨_, .seq (.unless hwords) (.seq hunit (.seq hunits hlast))⟩
    exact .rule (accepts_oneOf (by simp) hraw rfl)

/-! ## Texts -/

section Texts

variable {text : List Char} {result : Match Rule}

/-- Where no statement starts, the text is at its end. -/
theorem rest_of_refused {before : List Char} {place : Cursor}
    (h : Derives grammar .spaced (.rule .statement) place none) (hplain : Transparent place.rest)
    (hblank : ∀ c ∈ place.rest.head?, isLayoutBlank c = false)
    (hsteps : (Nesting.code []).steps place.rest = .code []) (hseam : Seam before place.rest)
    (hcase : ¬ HasWord "case" (before ++ place.rest))
    (hdefault : ¬ HasWord "default" (before ++ place.rest)) : place.rest = [] := by
  obtain ⟨offset, rest⟩ := place
  cases rest with
  | nil => rfl
  | cons c rest =>
      obtain ⟨stmt, hstmt⟩ := accepts_statement offset hplain (hblank c rfl) hsteps hseam
        hcase hdefault
      exact absurd h hstmt.not_refused

/-- Where the statements of a balanced text end, there is nothing left but layout. -/
theorem rest_of_statements (hplain : Transparent text) (hbalanced : Balanced text)
    (hcase : ¬ HasWord "case" text) (hdefault : ¬ HasWord "default" text)
    (h : Matches grammar .spaced (.seq textStart (.many (.rule .statement))) (.start text) result) :
    (grammar.skip .spaced result.stop).rest = [] := by
  have hkeeps : keeps .spaced (.seq textStart (.many (.rule .statement))) (.code [])
      (fun next => next = .code []) = true := by decide
  obtain ⟨read, next, hread, hreads, hnext⟩ := reads_of_keeps h hplain hkeeps
  obtain rfl := of_decide_eq_true hnext
  have hseam : Seam read result.stop.rest := (atSeam_of_seals h (by decide)).seam hread
  have hstop := hplain.of_leads (h.leads skips_grammar)
  obtain ⟨blanks, hskip, hblanks, hhead⟩ := skipLayout_blanks hstop.slash_not_mem result.stop.offset
  change text = read ++ result.stop.rest at hread
  change result.stop.rest = blanks ++ (grammar.skip .spaced result.stop).rest at hskip
  rw [hread, Balanced, hreads.steps_rest] at hbalanced
  obtain ⟨first, second, htext, hmany, hresult⟩ := h.of_seq
  have hsecond : result.stop = second.stop := by rw [hresult]; rfl
  rw [hsecond] at hread hskip hbalanced hseam hstop hhead ⊢
  rcases hmany.many_end with hend | ⟨rfl, hend⟩
  · have hreadsBlanks := Nesting.reads_blanks hblanks []
    rw [hskip] at hstop hbalanced hseam
    rw [hreadsBlanks.steps_rest] at hbalanced
    rw [hread, hskip, ← List.append_assoc] at hcase hdefault
    exact rest_of_refused hend hstop.of_append.2 hhead hbalanced (hseam.blanks hblanks) hcase
      hdefault
  · have hfirst := hplain.of_leads (htext.leads skips_grammar)
    obtain ⟨-, -, -, hheadFirst⟩ := skipLayout_blanks hfirst.slash_not_mem first.stop.offset
    rw [hread] at hcase hdefault
    have hrest := rest_of_refused hend hstop hheadFirst hbalanced hseam hcase hdefault
    exact (List.append_eq_nil_iff.1 (hskip.symm.trans hrest)).2

theorem accepts_program (hplain : Transparent text) (hbalanced : Balanced text)
    (hcase : ¬ HasWord "case" text) (hdefault : ¬ HasWord "default" text) :
    Accepts .spaced (.rule .program) (.start text) := by
  have htext : Matches grammar .spaced textStart (.start text) ⟨.start text, []⟩ := .text rfl
  obtain ⟨statements, hstatements⟩ :
      Accepts .spaced (.many (.rule .statement)) (grammar.skip .spaced (.start text)) := .many rfl
  have hrest := rest_of_statements hplain hbalanced hcase hdefault (.seq htext hstatements)
  have hend : Accepts .spaced (.rule .endOfInput) (grammar.skip .spaced statements.stop) := by
    change (grammar.skip .spaced statements.stop).rest = [] at hrest
    generalize grammar.skip .spaced statements.stop = place at hrest
    obtain ⟨offset, rest⟩ := place
    obtain rfl : rest = [] := hrest
    exact .rule ⟨_, .endOfText _ offset⟩
  obtain ⟨last, hlast⟩ := hend
  exact .rule ⟨_, .seq htext (.seq hstatements hlast)⟩

theorem balanced_of_matches (hplain : Transparent text)
    (h : Matches grammar .spaced (.rule .program) (.start text) result) : Balanced text := by
  obtain ⟨read, hread, hreads⟩ := reads_rule h hplain (.code []) rfl (.inl (by decide))
  obtain ⟨inner, hinner, hresult⟩ := h.of_rule
  obtain ⟨_, _, _, hinner, hstop⟩ := hinner.second skips_grammar
  obtain ⟨_, _, _, hinner, hstopEnd⟩ := hinner.second skips_grammar
  obtain ⟨last, hend, hrecord⟩ := hinner.of_rule
  have hrest : result.stop.rest = [] := by
    rw [hresult, Grammar.record_stop, hstop, hstopEnd, hrecord, Grammar.record_stop]
    change Matches grammar _ .endOfText _ last at hend
    cases hend with
    | endOfText => rfl
  rw [hrest, List.append_nil] at hread
  change text = read at hread
  rw [hread]
  exact hreads.steps

end Texts

/-- **The scripts are the balanced texts**: a text without slashes and backticks, in which
neither of the words that start a clause of a choice occurs, is a script if and only if
its brackets and quotes balance. -/
theorem parse_iff_balanced (source : String) (hslash : '/' ∉ source.toList)
    (hbacktick : '\x60' ∉ source.toList) (hcase : ¬ HasWord "case" source.toList)
    (hdefault : ¬ HasWord "default" source.toList) :
    (∃ program, parse source = .ok program) ↔ Balanced source.toList := by
  have hplain : Transparent source.toList := by
    intro c hc
    simp only [isOpaque, Bool.or_eq_false_iff, decide_eq_false_iff_not]
    exact ⟨fun h => hslash (h ▸ hc), fun h => hbacktick (h ▸ hc)⟩
  have hderives := derives_match source.toList
  constructor
  · rintro ⟨program, hprogram⟩
    rcases parse_total source with ⟨attempts, -, hfailure⟩ | ⟨attempts, stop, tree, -, hmatch, -⟩
    · rw [hfailure] at hprogram
      contradiction
    · rw [hmatch] at hderives
      exact balanced_of_matches hplain (hderives.matches _ rfl)
  · intro hbalanced
    obtain ⟨result, hresult⟩ := accepts_program hplain hbalanced hcase hdefault
    rcases parse_total source with ⟨attempts, hmatch, -⟩ | ⟨attempts, stop, tree, program, -, hprogram, -⟩
    · rw [hmatch] at hderives
      exact absurd hderives hresult.not_refused
    · exact ⟨program, hprogram⟩

/-- Brackets between quotes do not count, and neither do words inside names. -/
theorem parse_iff_balanced_lowercase :
    let source := "let x = f(lowercase, [\"(\"]);"
    ('/' ∉ source.toList ∧ '\x60' ∉ source.toList ∧ ¬ HasWord "case" source.toList ∧
        ¬ HasWord "default" source.toList) ∧ ∃ program, parse source = .ok program := by
  refine ⟨by decide, ?_⟩
  exact (parse_iff_balanced _ (by decide) (by decide) (by decide) (by decide)).2 (by decide)

end EventLoop.Script
