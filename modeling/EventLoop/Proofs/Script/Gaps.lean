import EventLoop.Proofs.Script.Reading

/-!
# What stands between statements

The statements of a program stand in its text one after the other, and what is
before, between and behind them is layout (`Tiles`): blanks and comments, where a
comment runs to the end of its line or to the first `*/` behind it.  Together with
what raw statements keep this says that a program accounts for all of its text
(`accounts_parse`).
-/

namespace EventLoop.Script

open Peg

/-! ## Layout -/

/-- A comment before a text. -/
inductive IsComment (behind : List Char) : List Char → Prop where
  | line {inside : List Char} (hinside : ∀ c ∈ inside, isLineEnd c = false)
      (hend : ∀ c ∈ behind.head?, isLineEnd c = true) : IsComment behind ('/' :: '/' :: inside)
  | block {inside : List Char} (hinside : ¬ ['*', '/'] <:+: inside) :
      IsComment behind ('/' :: '*' :: (inside ++ ['*', '/']))

/-- Blanks and comments before a text. -/
inductive IsLayout (behind : List Char) : List Char → Prop where
  | nil : IsLayout behind []
  | blank {c : Char} {rest : List Char} (hc : isLayoutBlank c = true)
      (hrest : IsLayout behind rest) : IsLayout behind (c :: rest)
  | comment {comment rest : List Char} (h : IsComment (rest ++ behind) comment)
      (hrest : IsLayout behind rest) : IsLayout behind (comment ++ rest)

theorem IsLayout.append {first second behind : List Char}
    (h : IsLayout (second ++ behind) first) (hsecond : IsLayout behind second) :
    IsLayout behind (first ++ second) := by
  induction h with
  | nil => exact hsecond
  | blank hc _ ih => exact .blank hc ih
  | comment h _ ih =>
      rw [List.append_assoc]
      rw [← List.append_assoc] at h
      exact .comment h ih

/-- Two ways to cut a text, of which one is at a character. -/
theorem cut_cases {first rest before after : List Char} {c : Char}
    (h : first ++ rest = before ++ c :: after) :
    (∃ others, first = before ++ c :: others ∧ after = others ++ rest) ∨
      ∃ others, before = first ++ others ∧ rest = others ++ c :: after := by
  rcases List.append_eq_append_iff.1 h with ⟨others, hbefore, hrest⟩ | ⟨others, hfirst, hafter⟩
  · exact .inr ⟨others, hbefore, hrest⟩
  · cases others with
    | nil =>
        refine .inr ⟨[], ?_, hafter.symm⟩
        rw [hfirst, List.append_nil, List.append_nil]
    | cons d others =>
        obtain ⟨rfl, rfl⟩ := List.cons.inj hafter
        exact .inl ⟨others, hfirst, rfl⟩

/-- A character of layout is a blank or belongs to a comment. -/
theorem IsLayout.cases_at {layout before after behind : List Char} {c : Char}
    (h : IsLayout behind layout) (hlayout : layout = before ++ c :: after) :
    isLayoutBlank c = true ∨ ∃ first inside rest last, before = first ++ inside ∧
      after = rest ++ last ∧ IsComment (last ++ behind) (inside ++ c :: rest) := by
  induction h generalizing before with
  | nil => simp at hlayout
  | @blank d rest hd _ ih =>
      cases before with
      | nil =>
          obtain ⟨rfl, -⟩ := List.cons.inj hlayout
          exact .inl hd
      | cons d before =>
          obtain ⟨rfl, hrest⟩ := List.cons.inj hlayout
          rcases ih hrest with hblank | ⟨first, inside, rest, last, rfl, hafter, hcomment⟩
          · exact .inl hblank
          · exact .inr ⟨d :: first, inside, rest, last, rfl, hafter, hcomment⟩
  | @comment comment rest hcomment _ ih =>
      rcases cut_cases hlayout with ⟨others, rfl, hafter⟩ | ⟨others, rfl, hrest⟩
      · exact .inr ⟨[], before, others, rest, rfl, hafter, hcomment⟩
      · rcases ih hrest with hblank | ⟨first, inside, rest, last, rfl, hafter, hcomment⟩
        · exact .inl hblank
        · refine .inr ⟨comment ++ first, inside, rest, last, ?_, hafter, hcomment⟩
          rw [List.append_assoc]

/-! ## Skipping -/

/-- Layout leads from a place to another one. -/
def Skipped (place stop : Cursor) : Prop :=
  ∃ layout, place.drop? layout = some stop ∧ IsLayout stop.rest layout

namespace Skipped

variable {place middle stop : Cursor}

theorem refl (place : Cursor) : Skipped place place :=
  ⟨[], rfl, .nil⟩

theorem trans (h : Skipped place middle) (hrest : Skipped middle stop) : Skipped place stop := by
  obtain ⟨first, hfirst, hlayout⟩ := h
  obtain ⟨second, hsecond, hlayoutBehind⟩ := hrest
  refine ⟨first ++ second, ?_, ?_⟩
  · rw [Cursor.drop?_append, hfirst]
    exact hsecond
  · rw [(Cursor.drop?_eq_some_iff.1 hsecond).1] at hlayout
    exact hlayout.append hlayoutBehind

theorem blank {offset : Nat} {c : Char} {rest : List Char} (hc : isLayoutBlank c = true)
    (h : Skipped ⟨offset + c.utf8Size, rest⟩ stop) : Skipped ⟨offset, c :: rest⟩ stop := by
  obtain ⟨layout, hdrop, hlayout⟩ := h
  exact ⟨c :: layout, (if_pos rfl).trans hdrop, .blank hc hlayout⟩

theorem comment {comment : List Char} (hdrop : place.drop? comment = some middle)
    (hcomment : IsComment middle.rest comment) (h : Skipped middle stop) : Skipped place stop := by
  obtain ⟨layout, hlayoutDrop, hlayout⟩ := h
  refine ⟨comment ++ layout, ?_, ?_⟩
  · rw [Cursor.drop?_append, hdrop]
    exact hlayoutDrop
  · rw [(Cursor.drop?_eq_some_iff.1 hlayoutDrop).1] at hcomment
    exact .comment hcomment hlayout

end Skipped

/-- What is passed over from a place on, by what is being skipped there. -/
def Skipping.Passes : Skipping → Cursor → Cursor → Prop
  | .blanks, place, stop => Skipped place stop
  | .lineComment, place, stop => ∃ inside middle, place.drop? inside = some middle ∧
      (∀ c ∈ inside, isLineEnd c = false) ∧ (∀ c ∈ middle.rest.head?, isLineEnd c = true) ∧
      Skipped middle stop
  | .blockComment start, place, stop => stop = start ∨
      ∃ inside middle, place.drop? (inside ++ ['*', '/']) = some middle ∧
        ¬ ['*', '/'] <:+: inside ∧ Skipped middle stop

theorem passes_skipFrom (skipping : Skipping) (offset : Nat) (text : List Char) :
    skipping.Passes ⟨offset, text⟩ (skipFrom skipping offset text) := by
  fun_induction skipFrom skipping offset text with
  | case1 start => exact .inl rfl
  | case2 skipping offset hskipping =>
      cases skipping with
      | blanks => exact .refl _
      | lineComment => exact ⟨[], _, rfl, by simp, by simp, .refl _⟩
      | blockComment start => exact (hskipping start rfl).elim
  | case3 offset rest ih =>
      obtain ⟨inside, middle, hdrop, hinside, hend, hskipped⟩ := ih
      refine .comment ?_ (.line hinside hend) hskipped
      exact hdrop
  | case4 offset rest ih =>
      rcases ih with hopen | ⟨inside, middle, hdrop, hinside, hskipped⟩
      · change Skipped _ _
        rw [hopen]
        exact .refl _
      · refine .comment ?_ (.block hinside) hskipped
        exact hdrop
  | case5 offset c rest _ _ hc ih => exact .blank hc ih
  | case6 offset c rest => exact .refl _
  | case7 offset c rest ih =>
      by_cases hc : isLineEnd c = true
      · rw [if_pos hc] at ih ⊢
        have hblank : isLayoutBlank c = true := by
          simp only [isLineEnd, Bool.or_eq_true, decide_eq_true_eq] at hc
          rcases hc with rfl | rfl <;> rfl
        exact ⟨[], _, rfl, by simp, by simpa using hc, .blank hblank ih⟩
      · rw [if_neg hc] at ih ⊢
        obtain ⟨inside, middle, hdrop, hinside, hend, hskipped⟩ := ih
        exact ⟨c :: inside, middle, (if_pos rfl).trans hdrop,
          List.forall_mem_cons.2 ⟨Bool.eq_false_iff.2 hc, hinside⟩, hend, hskipped⟩
  | case8 start offset rest ih => exact .inr ⟨[], _, rfl, by simp, ih⟩
  | case9 start offset c rest hopen ih =>
      rcases ih with hstart | ⟨inside, middle, hdrop, hinside, hskipped⟩
      · exact .inl hstart
      · refine .inr ⟨c :: inside, middle, (if_pos rfl).trans hdrop, fun hinfix => ?_, hskipped⟩
        rcases List.infix_cons_iff.1 hinfix with hprefix | hinfix
        · -- the comment would have ended here
          obtain ⟨behind, hbehind⟩ := hprefix
          obtain ⟨rfl, htail⟩ := List.cons.inj hbehind
          have hrest := (Cursor.drop?_eq_some_iff.1 hdrop).1
          rw [← htail] at hrest
          exact hopen _ rfl hrest
        · exact hinside hinfix

theorem skipped_skipLayout (place : Cursor) : Skipped place (skipLayout place) :=
  passes_skipFrom .blanks place.offset place.rest

/-! ## Statements -/

/-- A statement spans all that it is read from. -/
theorem span_assemble {r : Rule} (hr : r ∈ statementRules) {whole : Part} {parts : List Part}
    {meaning : Meaning} (h : assemble r whole parts = .ok meaning) :
    ∃ stmt : Stmt, meaning = .stmt stmt ∧ stmt.span = whole.span := by
  have hstmt : ∃ stmt, assembleStmt? r whole parts = some (.ok stmt) ∧ meaning = .stmt stmt := by
    have hall : ∀ r ∈ statementRules, ofKind .stmt r = true := by decide
    have hisStmt := hall r hr
    unfold assemble at h
    split at h
    · rename_i heq
      obtain ⟨stmt, rfl, rfl⟩ := map_ok h
      exact ⟨stmt, heq, rfl⟩
    · rename_i hnone
      rw [← isSome_assembleStmt? r whole parts, hnone] at hisStmt
      contradiction
  obtain ⟨stmt, hstmt, rfl⟩ := hstmt
  refine ⟨stmt, rfl, ?_⟩
  cases r with
  | block | emptyStmt | returnStmt | breakStmt | continueStmt | unknownStmt =>
      obtain rfl := Except.ok.inj (Option.some.inj hstmt)
      rfl
  | declareStmt =>
      have hmeanings := Option.some.inj hstmt
      split at hmeanings
      · obtain rfl := Except.ok.inj hmeanings
        rfl
      · contradiction
  | switchStmt | classDecl | forStmt | throwStmt | tryStmt | exprStmt =>
      obtain ⟨_, _, hstmt⟩ := need_bind (Option.some.inj hstmt)
      obtain rfl := Except.ok.inj hstmt
      rfl
  | functionDecl | ifStmt | whileStmt | doWhileStmt | labeledStmt =>
      obtain ⟨_, _, hstmt⟩ := need_bind (Option.some.inj hstmt)
      obtain ⟨_, _, hstmt⟩ := need_bind hstmt
      obtain rfl := Except.ok.inj hstmt
      rfl
  | forLoopStmt =>
      obtain ⟨_, _, hstmt⟩ := need_bind (Option.some.inj hstmt)
      obtain ⟨_, _, hstmt⟩ := need_bind hstmt
      obtain ⟨_, _, hstmt⟩ := need_bind hstmt
      obtain ⟨_, _, hstmt⟩ := need_bind hstmt
      obtain rfl := Except.ok.inj hstmt
      rfl
  | _ => contradiction

variable {map : LineMap} {place middle stop : Cursor} {result : Match Rule} {stmts : List Stmt}

/-- The tree of a statement stands for a statement that spans what was read. -/
theorem exists_statement (h : Matches grammar .spaced (.rule .statement) place result)
    {trees : List (Peg.Tree Rule)} {parts : List Part}
    (hparts : Part.ofTrees map (result.trees ++ trees) = .ok parts) :
    ∃ stmt others, Part.ofTrees map trees = .ok others ∧ stmtsOf parts = stmt :: stmtsOf others ∧
      stmt.span = map.span place.offset result.stop.offset := by
  obtain ⟨inner, hinner, rfl⟩ := h.of_recorded (by decide) (by decide)
  obtain ⟨e, he, hchosen⟩ : ∃ e ∈ statementRules.map Peg.Expr.rule,
      Matches grammar .spaced e place inner := Matches.of_oneOf (by decide) hinner
  obtain ⟨r, hr, rfl⟩ := List.mem_map.1 he
  have hrecorded : ∀ r ∈ statementRules, kind r ≠ .hidden := by decide
  obtain ⟨last, -, rfl⟩ := hchosen.of_recorded (hrecorded r hr) (by decide)
  obtain ⟨part, hpart, hparts⟩ := bind_ok hparts
  obtain ⟨others, hothers, hparts⟩ := bind_ok hparts
  obtain rfl := Except.ok.inj hparts
  obtain ⟨inside, hinside, hpart⟩ := bind_ok hpart
  obtain ⟨meaning, hmeaning, hpart⟩ := bind_ok hpart
  obtain rfl := Except.ok.inj hpart
  obtain ⟨child, hchild, hinside⟩ := bind_ok hinside
  obtain rfl := Except.ok.inj hinside
  obtain ⟨parts, -, hchild⟩ := bind_ok hchild
  obtain ⟨childMeaning, hchildMeaning, hchild⟩ := bind_ok hchild
  obtain rfl := Except.ok.inj hchild
  obtain ⟨stmt, rfl, hspan⟩ := span_assemble hr hchildMeaning
  obtain rfl := Except.ok.inj hmeaning
  exact ⟨stmt, others, hothers, rfl, hspan⟩

/-! ## Statements and what is between them -/

/-- Statements stand between two places, with layout before, between and behind them. -/
inductive Tiles (map : LineMap) : Cursor → List Stmt → Cursor → Prop where
  | nil {place stop : Cursor} (h : Skipped place stop) : Tiles map place [] stop
  | cons {place start next stop : Cursor} {stmt : Stmt} {stmts : List Stmt}
      (hlayout : Skipped place start) (hleads : start.Leads next)
      (hspan : stmt.span = map.span start.offset next.offset) (hrest : Tiles map next stmts stop) :
      Tiles map place (stmt :: stmts) stop

namespace Tiles

theorem before (hlayout : Skipped place middle) (h : Tiles map middle stmts stop) :
    Tiles map place stmts stop := by
  cases h with
  | nil h => exact .nil (hlayout.trans h)
  | cons hstart hleads hspan hrest => exact .cons (hlayout.trans hstart) hleads hspan hrest

end Tiles

theorem tiles_many (h : Matches grammar .spaced (.many (.rule .statement)) place result)
    (hend : Skipped result.stop stop) {trees : List (Peg.Tree Rule)} {parts : List Part}
    (htrees : ∀ others, Part.ofTrees map trees = .ok others → stmtsOf others = [])
    (hparts : Part.ofTrees map (result.trees ++ trees) = .ok parts) :
    Tiles map place (stmtsOf parts) stop := by
  generalize hmode : Mode.spaced = mode at h
  generalize hmany : Expr.many (.rule Rule.statement) = repetition at h
  induction h generalizing parts with
  | noMore =>
      rw [htrees parts hparts]
      exact .nil hend
  | last h _ =>
      obtain rfl := Expr.many.inj hmany
      subst hmode
      obtain ⟨stmt, others, hothers, hstmts, hspan⟩ := exists_statement h hparts
      rw [hstmts, htrees others hothers]
      exact .cons (.refl _) (h.leads skips_grammar) hspan (.nil hend)
  | more h _ _ _ _ ih =>
      obtain rfl := Expr.many.inj hmany
      subst hmode
      rw [Match.after, List.append_assoc] at hparts
      obtain ⟨stmt, others, hothers, hstmts, hspan⟩ := exists_statement h hparts
      rw [hstmts]
      exact .cons (.refl _) (h.leads skips_grammar) hspan
        ((ih hend hothers rfl rfl).before (skipped_skipLayout _))
  | _ => contradiction

/-- The tree of a text holds what its statements record, and the end of the text. -/
theorem exists_many {text : List Char} {attempts : Attempts Rule} {trees : List (Peg.Tree Rule)}
    (h : match? text = .success attempts stop trees) :
    ∃ (many : Match Rule) (last : Cursor) (inside : List (Peg.Tree Rule)),
      Matches grammar .spaced (.many (.rule .statement)) (skipLayout (.start text)) many ∧
        last = skipLayout many.stop ∧ last.rest = [] ∧
        trees = [.node .program (.start text) stop
          (many.trees ++ [.node .endOfInput last stop inside])] := by
  have hderives := derives_match text
  rw [h] at hderives
  obtain ⟨whole, hwhole, hresult⟩ := (hderives.matches _ rfl).of_recorded (by decide) (by decide)
  obtain ⟨rfl, rfl⟩ := Match.mk.inj hresult
  obtain ⟨first, behind, hfirst, hbehind, rfl⟩ := hwhole.of_seq
  obtain ⟨many, last, hmany, hlast, rfl⟩ := hbehind.of_seq
  obtain ⟨input, hinput, rfl⟩ := hlast.of_recorded (by decide) (by decide)
  cases hfirst with
  | text hfirst =>
      obtain rfl := Option.some.inj hfirst
      generalize hplace : grammar.skip _ many.stop = place at hinput
      cases hinput with
      | endOfText => exact ⟨many, _, _, hmany, hplace.symm, rfl, rfl⟩

theorem stmtsOf_endOfInput {start stop : Cursor} {inside : List (Peg.Tree Rule)}
    {parts : List Part}
    (h : Part.ofTrees map [.node .endOfInput start stop inside] = .ok parts) :
    stmtsOf parts = [] := by
  obtain ⟨part, hpart, h⟩ := bind_ok h
  obtain rfl := Except.ok.inj h
  obtain ⟨_, -, hpart⟩ := bind_ok hpart
  obtain ⟨meaning, hmeaning, hpart⟩ := bind_ok hpart
  obtain rfl := Except.ok.inj hmeaning
  obtain rfl := Except.ok.inj hpart
  rfl

/-- The text of a program is tiled by its statements. -/
theorem tiles_parse {source : String} {program : Program} (h : parse source = .ok program) :
    ∃ stop : Cursor, stop.rest = [] ∧
      Tiles (.ofText source.toList) (.start source.toList) program.body stop := by
  obtain ⟨attempts, stop, children, parts, hmatch, -, hparts, rfl⟩ := exists_parts h
  obtain ⟨many, last, inside, hmany, hlast, hend, htree⟩ := exists_many hmatch
  obtain rfl := (Peg.Tree.node.inj (List.cons.inj htree).1).2.2.2
  have hskipped : Skipped many.stop last := by
    rw [hlast]
    exact skipped_skipLayout _
  have htiles := tiles_many hmany hskipped (fun _ => stmtsOf_endOfInput) hparts
  exact ⟨last, hend, htiles.before (skipped_skipLayout _)⟩

/-- Whether an offset is in the span of a statement. -/
def Spanned (stmts : List Stmt) (offset : Nat) : Prop :=
  ∃ stmt ∈ stmts, stmt.span.start ≤ offset ∧ offset < stmt.span.stop

theorem spanned_cons {stmt : Stmt} {offset : Nat} :
    Spanned (stmt :: stmts) offset ↔
      stmt.span.start ≤ offset ∧ offset < stmt.span.stop ∨ Spanned stmts offset := by
  simp [Spanned]

/-- Behind a text, which starts at an offset, stands a character of a comment, and the comment
starts outside of all statements. -/
def InComment (stmts : List Stmt) (offset : Nat) (before : List Char) (c : Char)
    (after : List Char) : Prop :=
  ∃ first inside rest last, before = first ++ inside ∧ after = rest ++ last ∧
    IsComment last (inside ++ c :: rest) ∧ ¬ Spanned stmts (offset + byteLength first)

/-- A character of layout before all statements. -/
theorem IsLayout.inComment {before after behind : List Char} {c : Char}
    (h : IsLayout behind (before ++ c :: after)) (offset : Nat)
    (hstmts : ∀ stmt ∈ stmts, offset + byteLength (before ++ c :: after) ≤ stmt.span.start) :
    isLayoutBlank c = true ∨ InComment stmts offset before c (after ++ behind) := by
  rcases h.cases_at rfl with hblank | ⟨first, inside, rest, last, rfl, rfl, hcomment⟩
  · exact .inl hblank
  · refine .inr ⟨first, inside, rest, last ++ behind, rfl, ?_, hcomment, ?_⟩
    · rw [List.append_assoc]
    · rintro ⟨stmt, hstmt, hstart, -⟩
      have hbefore := hstmts stmt hstmt
      have hpos := c.utf8Size_pos
      simp only [byteLength_append, byteLength] at hbefore hstart
      omega

namespace Tiles

theorem le_start (h : Tiles map place stmts stop) :
    ∀ stmt ∈ stmts, place.offset ≤ stmt.span.start := by
  induction h with
  | nil => simp
  | cons hlayout hleads hspan _ ih =>
      obtain ⟨layout, hlayout, -⟩ := hlayout
      have hstart := (Cursor.drop?_eq_some_iff.1 hlayout).2
      have hnext := hleads.offset_le
      refine List.forall_mem_cons.2 ⟨?_, fun stmt hstmt => ?_⟩
      · rw [hspan]
        change _ ≤ Cursor.offset _
        omega
      · have hle := ih stmt hstmt
        omega

/-- A character outside of all statements is a blank or belongs to a comment. -/
theorem outside (h : Tiles map place stmts stop) (hend : stop.rest = [])
    {before after : List Char} {c : Char} (hrest : place.rest = before ++ c :: after) :
    Spanned stmts (place.offset + byteLength before) ∨ isLayoutBlank c = true ∨
      InComment stmts place.offset before c after := by
  induction h generalizing before with
  | @nil place stop h =>
      obtain ⟨layout, hdrop, hlayout⟩ := h
      have hall := (Cursor.drop?_eq_some_iff.1 hdrop).1
      rw [hend, hrest, List.append_nil] at hall
      rw [hend, ← hall] at hlayout
      have hnone : ∀ stmt ∈ ([] : List Stmt),
        place.offset + byteLength (before ++ c :: after) ≤ stmt.span.start := by simp
      have hinComment := hlayout.inComment place.offset hnone
      rw [List.append_nil] at hinComment
      exact .inr hinComment
  | @cons place start next stop stmt stmts hskipped hleads hspan htiles ih =>
      have hstmts := (Tiles.cons (.refl start) hleads hspan htiles).le_start
      obtain ⟨layout, hdrop, hlayout⟩ := hskipped
      obtain ⟨inside, hinside, hnext⟩ := hleads
      obtain ⟨hplace, hstart⟩ := Cursor.drop?_eq_some_iff.1 hdrop
      have hspanStart : stmt.span.start = start.offset := by rw [hspan]; rfl
      have hspanStop : stmt.span.stop = next.offset := by rw [hspan]; rfl
      rw [hplace] at hrest
      rcases cut_cases hrest with ⟨others, rfl, rfl⟩ | ⟨others, rfl, hstartRest⟩
      · -- the character stands before the statement
        refine .inr (hlayout.inComment place.offset fun other hother => ?_)
        rw [← hstart]
        exact hstmts other hother
      · rw [hinside] at hstartRest
        rcases cut_cases hstartRest with ⟨behind, rfl, -⟩ | ⟨behind, rfl, hnextRest⟩
        · -- the character belongs to the statement
          have hpos := c.utf8Size_pos
          refine .inl (spanned_cons.2 (.inl ?_))
          simp only [byteLength_append, byteLength] at hnext ⊢
          omega
        · -- the character stands behind the statement
          have hoffset (read : List Char) : place.offset + byteLength (layout ++ (inside ++ read)) =
              next.offset + byteLength read := by
            simp only [byteLength_append]
            omega
          rw [hoffset]
          rcases ih hend hnextRest with hspanned | hblank |
            ⟨first, comment, rest, last, rfl, hafter, hcomment, hfirst⟩
          · exact .inl (spanned_cons.2 (.inr hspanned))
          · exact .inr (.inl hblank)
          · refine .inr (.inr ⟨layout ++ (inside ++ first), comment, rest, last, ?_, hafter,
              hcomment, ?_⟩)
            · simp only [List.append_assoc]
            · rw [hoffset, spanned_cons]
              rintro (⟨-, hstop⟩ | hspanned)
              · omega
              · exact hfirst hspanned

end Tiles

/-- **No text is dropped.**  The statements of a program stand in its text one behind the other, and
what is in none of them are blanks and comments.  What is not understood is kept: a raw statement,
wherever it stands, has the text of its span but for a semicolon and blanks at the end; the brackets
and quotes in it balance, and no line ends outside of them. -/
theorem accounts_parse {source : String} {program : Program} (h : parse source = .ok program) :
    (∀ stmt ∈ program.body, stmt.span.start < stmt.span.stop) ∧
      program.body.Pairwise (fun a b => a.span.stop ≤ b.span.start) ∧
      (∀ before c after, source.toList = before ++ c :: after →
        ¬ Spanned program.body (byteLength before) →
          isLayoutBlank c = true ∨ InComment program.body 0 before c after) ∧
      program.Everywhere fun phrase => ∀ raw span, phrase = .stmt (.unknown raw span) →
        ∃ before inside after, source.toList = before ++ inside ++ after ∧
          span = .ofStretch before inside ∧
          raw.toList = Text.trimEnd (withoutSemicolon inside) ∧ RawLine inside := by
  obtain ⟨hplaced, -⟩ := placed_parse h
  obtain ⟨stop, hend, htiles⟩ := tiles_parse h
  have hsound (stmt : Stmt) (hstmt : stmt ∈ program.body) :
      (Phrase.stmt stmt).Everywhere (Phrase.Sound source.toList) :=
    hplaced.sound (.stmt stmt) (List.mem_map_of_mem hstmt)
  refine ⟨fun stmt hstmt => (hsound stmt hstmt).here.moves, ?_, ?_, fun stmt hstmt => ?_⟩
  · exact List.pairwise_map.1 hplaced.row.inOrder
  · intro before c after hsource hspanned
    have houtside := htiles.outside hend hsource
    rw [Cursor.start, Nat.zero_add] at houtside
    exact houtside.resolve_left hspanned
  · refine (hsound stmt hstmt).imp fun phrase hphrase raw span heq => ?_
    subst heq
    obtain ⟨before, inside, after, hsource, hspan, hraw, hline, -⟩ := hphrase.isRead
    exact ⟨before, inside, after, hsource, hspan, hraw, hline⟩

/-- Comments before and behind statements, a blank line, and a raw statement over two lines. -/
theorem accounts_parse_comments :
    let source := "// a\nf(1) /* b */;\n\n@x (y\n) 'z;' ; // c"
    ∃ program, parse source = .ok program ∧
      (∀ stmt ∈ program.body, stmt.span.start < stmt.span.stop) ∧
      program.body.Pairwise (fun a b => a.span.stop ≤ b.span.start) ∧
      (∀ before c after, source.toList = before ++ c :: after →
        ¬ Spanned program.body (byteLength before) →
          isLayoutBlank c = true ∨ InComment program.body 0 before c after) ∧
      program.Everywhere fun phrase => ∀ raw span, phrase = .stmt (.unknown raw span) →
        ∃ before inside after, source.toList = before ++ inside ++ after ∧
          span = .ofStretch before inside ∧
          raw.toList = Text.trimEnd (withoutSemicolon inside) ∧ RawLine inside := by
  intro source
  have hok : (parse source).isOk = true := by decide +kernel
  obtain ⟨program, hparse⟩ := exists_program hok
  exact ⟨program, hparse, accounts_parse hparse⟩

/-! ## Raw statements -/

/-- **Raw text is the last resort.**  A raw statement, wherever it stands, starts where none of the
other rules for statements accepts the text, and it goes on to a semicolon, or as far as raw text
does.  What is declared without a value does not stand before an equals sign, so that raw text does
not start there. -/
theorem lastResort_parse {source : String} {program : Program} (h : parse source = .ok program) :
    program.Everywhere fun phrase =>
      (∀ raw span, phrase = .stmt (.unknown raw span) →
        ∃ before inside after, source.toList = before ++ inside ++ after ∧
          span = .ofStretch before inside ∧ Unsupported ⟨byteLength before, inside ++ after⟩ ∧
          IsWholeRaw inside after) ∧
      ∀ target span, phrase = .declarator (.mk target none span) →
        ∃ before inside after, source.toList = before ++ inside ++ after ∧
          span = .ofStretch before inside ∧ after.head? ≠ some '=' := by
  intro stmt hstmt
  have hsound := (placed_parse h).1.sound (.stmt stmt) (List.mem_map_of_mem hstmt)
  refine hsound.imp fun phrase hphrase => ⟨fun raw span heq => ?_, fun target span heq => ?_⟩
  · subst heq
    obtain ⟨before, inside, after, hsource, hspan, -, -, hunsupported, hwhole⟩ := hphrase.isRead
    exact ⟨before, inside, after, hsource, hspan, hunsupported, hwhole⟩
  · subst heq
    exact hphrase.isRead.2 rfl

/-- Between two spans of a text stands a semicolon or the end of a line. -/
def IsParted (text : List Char) (first second : Span) : Prop :=
  ∀ before between after, text = before ++ between ++ after → byteLength before = first.stop →
    byteLength (before ++ between) = second.start →
      ';' ∈ between ∨ ∃ c ∈ between, isLineEnd c = true

/-- The spans of a name and of the raw statement behind it, if a script consists of these. -/
def splitSpans? (source : String) : Option (Span × Span) :=
  match parse source with
  | .ok ⟨[.exprStmt (.ident _ span) _, .unknown _ rawSpan], _⟩ => some (span, rawSpan)
  | _ => none

theorem parse_of_splitSpans? {source : String} {span rawSpan : Span}
    (h : splitSpans? source = some (span, rawSpan)) :
    ∃ name whole raw range,
      parse source = .ok ⟨[.exprStmt (.ident name span) whole, .unknown raw rawSpan], range⟩ := by
  unfold splitSpans? at h
  split at h
  · rename_i hparse
    obtain ⟨rfl, rfl⟩ := Option.some.inj h
    exact ⟨_, _, _, _, hparse⟩
  · contradiction

/-- A declaration whose value is not supported, which is raw text as a whole. -/
theorem lastResort_parse_declaration :
    let source := "const el = <div>hi</div>; let a"
    ∃ program, parse source = .ok program ∧ program.Everywhere fun phrase =>
      (∀ raw span, phrase = .stmt (.unknown raw span) →
        ∃ before inside after, source.toList = before ++ inside ++ after ∧
          span = .ofStretch before inside ∧ Unsupported ⟨byteLength before, inside ++ after⟩ ∧
          IsWholeRaw inside after) ∧
      ∀ target span, phrase = .declarator (.mk target none span) →
        ∃ before inside after, source.toList = before ++ inside ++ after ∧
          span = .ofStretch before inside ∧ after.head? ≠ some '=' := by
  intro source
  have hok : (parse source).isOk = true := by decide +kernel
  obtain ⟨program, hparse⟩ := exists_program hok
  exact ⟨program, hparse, lastResort_parse hparse⟩

/-- The target of an assignment is split off when its value is not supported. -/
theorem assignment_split :
    ¬ ∀ source program, parse source = .ok program → ∀ e span raw rawSpan,
      [.exprStmt e span, .unknown raw rawSpan] <:+: program.body →
        IsParted source.toList e.span rawSpan := by
  intro hall
  have hspans : splitSpans? "el = <div>hi</div>" =
      some (.ofStretch [] "el".toList, .ofStretch "el ".toList "= <div>hi</div>".toList) := by
    decide +kernel
  obtain ⟨name, whole, raw, range, hparse⟩ := parse_of_splitSpans? hspans
  have hparted := hall _ _ hparse _ _ _ _ (List.infix_refl _) "el".toList [' ']
    "= <div>hi</div>".toList (by decide) rfl (by decide)
  rcases hparted with hsemicolon | ⟨c, hc, hend⟩
  · exact absurd (List.mem_singleton.1 hsemicolon) (by decide)
  · obtain rfl := List.mem_singleton.1 hc
    exact absurd hend (by decide)

end EventLoop.Script
