import EventLoop.Proofs.Script.Item

/-!
# Rules that are tried in vain

Before an expression is read, it is tried as an arrow function, as the target of an assignment
and, at the start of a statement, as a label.  These rules may get behind the first name of the
expression, behind a list that looks like a pattern or behind parentheses that look like those of
parameters, but there they are refused, because the expression goes on in a way that is not theirs
or is at its end.
-/

namespace EventLoop.Script

open Peg

variable {map : LineMap} {e inner : Expr} {es : List Expr} {place after last : Cursor}
  {f : Peg.Expr Rule}

/-! ## Where rules stop -/

/-- At a place the value of a plain assignment stands, up to its end. -/
def Assigns (e : Expr) (place after : Cursor) : Prop :=
  ∃ target value span, e = .assign .assign target value span ∧
    place.drop? (' ' :: '=' :: ' ' :: value.sided false) = some after

theorem Assigns.follows (h : Assigns e place after) : Follows [AssignOp.start .assign] place := by
  obtain ⟨target, value, span, -, hdrop⟩ := h
  have hmem : .text (['='] ++ [' ']) ∈ [AssignOp.start .assign] := List.mem_singleton_self _
  exact .of_operator hmem rfl hdrop

/-- An expression of the grammar that is tried on an expression is refused, or it stops where the
expression ends or goes on. -/
def Halts (f : Peg.Expr Rule) (e : Expr) (place after : Cursor) : Prop :=
  Derives grammar .spaced f place none ∨
    ∃ middle trees, Matches grammar .spaced f place ⟨middle, trees⟩ ∧
      (middle = after ∨ Follows goesOn middle ∨ Assigns e middle after)

/-- What is tried halts wherever an expression stands. -/
def HaltsAt (f : Peg.Expr Rule) (e : Expr) : Prop :=
  ∀ place after : Cursor, place.drop? e.render.toList = some after →
    startsInName after.rest = false → Halts f e place after

/-- The parameters of a function in parentheses. -/
def parenParams : Peg.Expr Rule :=
  .seq "(" (.seq (.optional (.rule .paramList)) ")")

/-- What is tried on the beginning of an expression. -/
def detours : List (Peg.Expr Rule) :=
  [.rule .identifier, .rule .bindingTarget, parenParams]

/-- What is tried is refused where an expression starts in one of some ways. -/
theorem haltsAt_of_opens {starts : List Start} (hopens : e.Opens starts)
    (hrefuses : ∀ start ∈ starts, ∀ f ∈ detours, start.refuses f = true) (hf : f ∈ detours) :
    HaltsAt f e := by
  intro place after hdrop hword
  obtain ⟨start, hmem, hat⟩ := hopens hdrop hword
  exact .inl (hat.refused (hrefuses start hmem f hf))

/-- What is tried on an expression in parentheses is refused, or it stops behind them. -/
def Encloses (f : Peg.Expr Rule) (e : Expr) : Prop :=
  ∀ place after : Cursor, place.drop? (e.sided true) = some after →
    Derives grammar .spaced f place none ∨ ∃ trees, Matches grammar .spaced f place ⟨after, trees⟩

theorem encloses_of_refuses (hf : (Start.text ['(']).refuses f = true) : Encloses f e := by
  intro place after hdrop
  rw [Expr.sided_true] at hdrop
  have hat : (Start.text ['(']).At place := Start.at_text rfl hdrop
  exact .inl (hat.refused hf)

/-- Only parameters are tried on parentheses with success. -/
theorem Encloses.detour (h : Encloses parenParams e) (hf : f ∈ detours) : Encloses f e := by
  simp only [detours, List.mem_cons, List.not_mem_nil, or_false] at hf
  rcases hf with rfl | rfl | rfl
  · exact encloses_of_refuses (by decide)
  · exact encloses_of_refuses (by decide)
  · exact h

/-- Where what is tried halts at the operand at the left, it halts at the expression. -/
theorem haltsAt_of_extends {grouped : Bool} {behind : List Char}
    (hextends : e.Extends inner grouped behind) (hfurther : e.further = goesOn)
    (h : grouped = false → HaltsAt f inner) (hgroup : grouped = true → Encloses f inner) :
    HaltsAt f e := by
  intro place after hdrop hword
  rw [hextends.text] at hdrop
  obtain ⟨middle, hmiddle, hbehind⟩ := Cursor.drop?_append_eq_some hdrop
  have hfollows := hextends.goes hbehind
  rw [hfurther] at hfollows
  cases grouped with
  | true =>
      rcases hgroup rfl _ _ hmiddle with hrefused | ⟨trees, hmatch⟩
      · exact .inl hrefused
      · exact .inr ⟨middle, trees, hmatch, .inr (.inl hfollows)⟩
  | false =>
      rcases h rfl _ _ hmiddle hfollows.word with hrefused | ⟨stop, trees, hmatch, hstop⟩
      · exact .inl hrefused
      · refine .inr ⟨stop, trees, hmatch, .inr (.inl ?_)⟩
        rcases hstop with rfl | hgoes | ⟨target, value, span, rfl, -⟩
        · exact hfollows
        · exact hgoes
        -- an assignment stands at the left only in a list with commas
        · rcases hextends.tight rfl with hgrade | hsequence
          · exact absurd hgrade (by rw [Expr.grade]; omega)
          · cases e with
            | sequence =>
                have hcomma : [Start.text [',']] = goesOn := hfurther
                exact absurd hcomma (by decide)
            | _ => contradiction

/-- At an assignment what is tried halts before its operator, or behind its target. -/
theorem haltsAt_assign (op : AssignOp) {target : Expr} (hstands : target.Stands false 11)
    (h : HaltsAt f target) (value : Expr) (span : Span) :
    HaltsAt f (.assign op target value span) := by
  have hextends := Expr.extends_assign op hstands value span
  cases op with
  | add | sub | mul | div => exact haltsAt_of_extends hextends rfl (fun _ => h) nofun
  | assign =>
      intro place after hdrop hword
      rw [hextends.text] at hdrop
      obtain ⟨middle, hmiddle, hbehind⟩ := Cursor.drop?_append_eq_some hdrop
      rcases h _ _ hmiddle (hextends.goes hbehind).word with hrefused | ⟨stop, trees, hmatch, hstop⟩
      · exact .inl hrefused
      · refine .inr ⟨stop, trees, hmatch, .inr ?_⟩
        rcases hstop with rfl | hgoes | ⟨_, _, _, rfl, -⟩
        · exact .inr ⟨target, value, span, rfl, hbehind⟩
        · exact .inl hgoes
        · exact absurd (hstands.resolve_left nofun) (by rw [Expr.grade]; omega)

/-- What is tried on an expression between commas halts. -/
theorem Halts.item (h : e.isSequence = false → HaltsAt f e) (hgroup : Encloses f e)
    (hdrop : place.drop? e.item = some after)
    (hword : startsInName after.rest = false) : Halts f e place after := by
  unfold Expr.item at hdrop
  cases hsequence : e.isSequence with
  | true =>
      rw [hsequence] at hdrop
      rcases hgroup _ _ hdrop with hrefused | ⟨trees, hmatch⟩
      · exact .inl hrefused
      · exact .inr ⟨after, trees, hmatch, .inl rfl⟩
  | false =>
      rw [hsequence] at hdrop
      exact h hsequence _ _ hdrop hword

/-! ## Names -/

/-- What is tried on a name is refused, or it reads the name. -/
theorem haltsAt_ident {name : String} (hname : IsAccepted name) (span : Span) (hf : f ∈ detours) :
    HaltsAt f (.ident name span) := by
  intro place after hdrop hword
  obtain ⟨start, hstart, hat⟩ := hname.start hdrop hword
  have hrefuses : ∀ start ∈ nameStarts, start.refuses (.rule .arrayPattern) = true ∧
      start.refuses (.rule .objectPattern) = true ∧ start.refuses parenParams = true := by
    decide
  obtain ⟨harray, hobject, hparams⟩ := hrefuses start hstart
  have hidentifier := matches_accepted hname hdrop hword
  simp only [detours, List.mem_cons, List.not_mem_nil, or_false] at hf
  rcases hf with rfl | rfl | rfl
  · exact .inr ⟨after, _, hidentifier, .inl rfl⟩
  · have htarget := matches_rule .spaced .bindingTarget nofun nofun
      (.altSecond (hat.refused harray) (.altSecond (hat.refused hobject) hidentifier))
    exact .inr ⟨after, _, htarget, .inl rfl⟩
  · exact .inl (hat.refused hparams)

/-! ## Patterns -/

/-- An equals sign that stands behind an expression is the first one of an operator. -/
theorem refused_equals {starts : List Start} (h : Follows starts after)
    (hstarts : starts ⊆ closers ++ goesOn) {mode : Mode} {f : Peg.Expr Rule}
    (hf : ∀ {place : Cursor}, (Start.text ['=']).At place → Derives grammar mode f place none) :
    Derives grammar mode (.seq "=" f) (skipLayout after) none := by
  obtain ⟨start, hmem, hat⟩ := h.start
  generalize skipLayout after = place at hat
  by_cases hequals : start = BinaryOp.eq.start ∨ start = BinaryOp.strictEq.start
  -- the sign itself is read, and behind it the second one is refused
  · obtain ⟨c, rest, rfl, hread⟩ : ∃ c rest, c = '=' ∧ place.rest = '=' :: c :: rest := by
      rcases hequals with rfl | rfl
      · obtain ⟨⟨others, hothers⟩, -⟩ := hat
        exact ⟨_, _, rfl, hothers.symm⟩
      · obtain ⟨⟨others, hothers⟩, -⟩ := hat
        exact ⟨_, _, rfl, hothers.symm⟩
    obtain ⟨offset, read⟩ := place
    obtain rfl : read = '=' :: '=' :: rest := hread
    have hequal : Matches grammar mode "=" ⟨offset, '=' :: '=' :: rest⟩
        ⟨⟨offset + '='.utf8Size, '=' :: rest⟩, []⟩ := .text rfl
    have hnext : (Start.text ['=']).At ⟨offset + '='.utf8Size, '=' :: rest⟩ :=
      ⟨⟨rest, rfl⟩, skipLayout_of_ne rfl (by decide)⟩
    refine .seq_none hequal ?_
    rw [hnext.skip]
    exact hf hnext
  · have hrefuses : ∀ start ∈ closers ++ goesOn, start = BinaryOp.eq.start ∨
        start = BinaryOp.strictEq.start ∨ start.refuses (literal "=") = true := by
      decide
    refine .seqRefused (hat.refused ?_)
    obtain hfirst | hsecond | hrefused := hrefuses start (hstarts hmem)
    · exact absurd (.inl hfirst) hequals
    · exact absurd (.inr hsecond) hequals
    · exact hrefused

/-- No default value stands behind an expression. -/
theorem refused_default {starts : List Start} (h : Follows starts after)
    (hstarts : starts ⊆ closers ++ goesOn) :
    Derives grammar .spaced (.seq "=" (.rule .assignExpr)) (skipLayout after) none :=
  refused_equals h hstarts fun hat => hat.refused (by decide)

/-- No operator of an assignment stands behind an expression. -/
theorem refused_assignOp (h : Follows (ends 9) after) :
    Derives grammar .spaced (.rule .assignOp) (skipLayout after) none := by
  have hequals : Derives grammar .token (.seq "=" (.unless (oneOf ["=", ">"]))) (skipLayout after)
      none := by
    refine refused_equals h (by decide) fun {place} hat => ?_
    obtain ⟨offset, read⟩ := place
    obtain ⟨⟨rest, rfl⟩, -⟩ := hat
    have hsecond : Matches grammar .token (oneOf ["=", ">"]) ⟨offset, ['='] ++ rest⟩
        ⟨⟨offset + '='.utf8Size, rest⟩, []⟩ := .altFirst _ (.text rfl)
    exact .unless hsecond.derives
  exact .rule_none (.altSecond (h.refused (by decide))
    (.altSecond (h.refused (by decide)) (.altSecond (h.refused (by decide))
      (.altSecond (h.refused (by decide)) hequals))))

/-- No further element and no end of a pattern stands at a place. -/
structure Blocked (place : Cursor) : Prop where
  comma : Derives grammar .spaced "," (skipLayout place) none
  closer : ∀ {c : Char}, c = ')' ∨ c = ']' →
    Derives grammar .spaced (.text [c]) (skipLayout place) none

theorem Follows.blocked {starts : List Start} (h : Follows starts after)
    (hcomma : ∀ start ∈ starts, start.refuses "," = true)
    (hparen : ∀ start ∈ starts, start.refuses (.text [')']) = true)
    (hbracket : ∀ start ∈ starts, start.refuses (.text [']']) = true) : Blocked after := by
  refine ⟨h.refused hcomma, fun hc => ?_⟩
  rcases hc with rfl | rfl
  · exact h.refused hparen
  · exact h.refused hbracket

theorem Blocked.skip (h : Blocked place) : Blocked (skipLayout place) := by
  refine ⟨?_, fun hc => ?_⟩
  · rw [skipLayout_skipLayout]
    exact h.comma
  · rw [skipLayout_skipLayout]
    exact h.closer hc

/-- No bracket closes at a place, perhaps behind a comma. -/
def Unclosed (closer : Char) (place : Cursor) : Prop :=
  Derives grammar .spaced (.text [closer]) (skipLayout place) none ∧
    ∃ result, Matches grammar .spaced (.optional ",") (skipLayout place) result ∧
      Derives grammar .spaced (.text [closer]) (skipLayout result.stop) none

theorem Blocked.unclosed (h : Blocked place) {closer : Char} (hcloser : closer = ')' ∨ closer = ']') :
    Unclosed closer place := by
  refine ⟨h.closer hcloser, _, .absent h.comma, ?_⟩
  rw [skipLayout_skipLayout]
  exact h.closer hcloser

/-- A rule that is tried on an expression between commas is refused, or it stops at the end of the
expression or where it is blocked. -/
def Tried (r : Rule) (e : Expr) : Prop :=
  ∀ place after : Cursor, place.drop? e.item = some after → Follows closers after →
    Derives grammar .spaced (.rule r) place none ∨
      ∃ stop trees, Matches grammar .spaced (.rule r) place ⟨stop, trees⟩ ∧
        (skipLayout stop = skipLayout after ∨ Blocked stop)

/-- The value of an assignment is read where a default value may stand. -/
theorem Assigns.matches_default {middle : Cursor} (h : Assigns e middle after)
    (hvalue : ∀ target value span, e = .assign .assign target value span →
      value.IsGrouped ∧ value.isSequence = false ∧ Readable map value)
    (hfollows : Follows closers after) :
    ∃ stop trees, Matches grammar .spaced (.seq "=" (.rule .assignExpr)) (skipLayout middle)
        ⟨stop, trees⟩ ∧ skipLayout stop = skipLayout after := by
  obtain ⟨target, value, span, he, hdrop⟩ := h
  obtain ⟨hgrouped, hsequence, hread⟩ := hvalue target value span he
  have hsplit : middle.drop? (' ' :: (['='] ++ [' ']) ++ value.sided false) = some after := hdrop
  obtain ⟨start, hoperator, hitem⟩ := Cursor.drop?_append_eq_some hsplit
  have hstart := (hgrouped.sided_start hitem hfollows.word).settled
  obtain ⟨last, rest, hequals, -, hlast⟩ := operator_between rfl hoperator hstart
  have hitem : start.drop? value.item = some after := by
    rw [Expr.item, hsequence]
    exact hitem
  obtain ⟨stop, children, hmatch, hstop, -⟩ := hread _ _ hitem hfollows
  exact ⟨stop, _, matches_seq (.text hequals) hlast hmatch, hstop⟩

/-- An element of a pattern that is tried on an expression stops at its end, or where it goes
on. -/
theorem tried_bindingElement (h : e.isSequence = false → HaltsAt (.rule .bindingTarget) e)
    (hvalue : ∀ target value span, e = .assign .assign target value span →
      value.IsGrouped ∧ value.isSequence = false ∧ Readable map value) :
    Tried .bindingElement e := by
  intro place after hdrop hfollows
  have hgroup : Encloses (.rule .bindingTarget) e := encloses_of_refuses (by decide)
  rcases Halts.item h hgroup hdrop hfollows.word with hrefused | ⟨middle, trees, hmatch, hmiddle⟩
  · exact .inl (.rule_none (.seqRefused hrefused))
  refine .inr ?_
  rcases hmiddle with rfl | hgoes | hassigns
  · have helement := matches_rule .spaced .bindingElement nofun nofun
      (matches_seq hmatch rfl (.absent (refused_default hfollows (by decide))))
    exact ⟨_, _, helement, .inl (skipLayout_skipLayout _)⟩
  · have helement := matches_rule .spaced .bindingElement nofun nofun
      (matches_seq hmatch rfl (.absent (refused_default hgoes (by decide))))
    exact ⟨_, _, helement, .inr (hgoes.blocked (by decide) (by decide) (by decide)).skip⟩
  · obtain ⟨stop, others, hdefault, hstop⟩ := hassigns.matches_default hvalue hfollows
    have helement := matches_rule .spaced .bindingElement nofun nofun
      (matches_seq hmatch rfl (.present hdefault))
    exact ⟨stop, _, helement, .inl hstop⟩

/-- No rest of a pattern starts like an expression. -/
theorem refused_restElement (he : e.IsGrouped) (hdrop : place.drop? e.item = some after)
    (hword : startsInName after.rest = false) :
    Derives grammar .spaced (.rule .restElement) place none :=
  (he.sided_start hdrop hword).refused (by decide)

theorem tried_param (he : e.IsGrouped) (h : Tried .bindingElement e) : Tried .param e := by
  intro place after hdrop hfollows
  have hrest := refused_restElement he hdrop hfollows.word
  rcases h _ _ hdrop hfollows with hrefused | ⟨stop, trees, hmatch, hstop⟩
  · exact .inl (.rule_none (.altSecond hrest hrefused))
  · exact .inr ⟨stop, _, matches_rule .spaced .param nofun nofun (.altSecond hrest hmatch), hstop⟩

theorem tried_patternSlot (he : e.IsGrouped) (h : Tried .bindingElement e) :
    Tried .patternSlot e := by
  intro place after hdrop hfollows
  have hrest := refused_restElement he hdrop hfollows.word
  rcases h _ _ hdrop hfollows with hrefused | ⟨stop, trees, hmatch, hstop⟩
  -- a slot may be left out: what no pattern starts with is a hole, before which nothing is read
  · have hnone : Matches grammar .spaced (body .patternSlot) place ⟨place, []⟩ :=
      .absent (.altSecond hrest hrefused)
    have hstart := he.sided_start hdrop hfollows.word
    refine .inr ⟨_, _, matches_rule .spaced .patternSlot nofun nofun hnone, .inr ⟨?_, fun hc => ?_⟩⟩
    · dsimp only
      rw [hstart.settled]
      exact hstart.refused (by decide)
    · dsimp only
      rw [hstart.settled]
      rcases hc with rfl | rfl
      · exact hstart.refused (by decide)
      · exact hstart.refused (by decide)
  · exact .inr ⟨stop, _, matches_rule .spaced .patternSlot nofun nofun
      (.present (.altSecond hrest hmatch)), hstop⟩

/-- Further elements of a pattern that are tried on expressions with commas between stop at their
end, or before a place where no bracket closes. -/
theorem matches_further {r : Rule} {closer : Char} (hcloser : closer = ')' ∨ closer = ']')
    (hes : ∀ e ∈ es, e.IsGrouped ∧ Tried r e) (hdrop : place.drop? (Expr.listed es) = some after)
    (hend : Follows brackets after) :
    ∃ stop trees, Matches grammar .spaced (.many (.seq "," (.rule r))) (skipLayout place)
        ⟨stop, trees⟩ ∧ (skipLayout stop = skipLayout after ∨ Unclosed closer stop) := by
  induction es generalizing place with
  | nil =>
      obtain rfl := Option.some.inj hdrop
      have hcomma : Derives grammar .spaced "," (skipLayout place) none := hend.refused (by decide)
      exact ⟨_, [], .noMore (.seqRefused hcomma), .inl (skipLayout_skipLayout place)⟩
  | cons e es ih =>
      obtain ⟨⟨he, htried⟩, hrest⟩ := List.forall_mem_cons.1 hes
      obtain ⟨comma, start, middle, hcomma, hsettled, hstart, hitem, hlisted⟩ := exists_further hdrop
      have hfollows := follows_item hlisted hend
      have hbegins := he.sided_start hitem hfollows.word
      have hplace := hstart.trans hbegins.settled
      rw [hsettled]
      rcases htried _ _ hitem (hfollows.mono (by decide)) with hrefused | ⟨stop, trees, hmatch, hstop⟩
      · refine ⟨place, [], .noMore (.seq_none hcomma ?_), .inr ?_⟩
        · change Derives grammar .spaced (.rule r) (skipLayout comma) none
          rw [hplace]
          exact hrefused
        -- the comma may be taken for the last one, but then an expression stands behind it
        · have hat : (Start.text [',']).At place := by
            rw [Expr.listed, List.flatMap_cons, List.cons_append] at hdrop
            exact Start.at_text rfl hdrop
          rw [Unclosed, hsettled]
          refine ⟨?_, _, .present hcomma, ?_⟩
          · rcases hcloser with rfl | rfl
            · exact hat.refused (by decide)
            · exact hat.refused (by decide)
          · dsimp only
            rw [hplace]
            rcases hcloser with rfl | rfl
            · exact hbegins.refused (by decide)
            · exact hbegins.refused (by decide)
      · have hround := matches_seq hcomma hplace hmatch
        rcases hstop with hend | hblocked
        · obtain ⟨stopRest, treesRest, hmany, hlast⟩ := ih hrest hlisted
          have hskip : grammar.skip .spaced stop = skipLayout middle := hend
          obtain ⟨stopAll, hall, hstopAll⟩ := hround.many_cons (skip_skip .spaced) (hskip ▸ hmany)
          have hstopAll : skipLayout stopAll = skipLayout stopRest := hstopAll
          refine ⟨stopAll, _, hall, ?_⟩
          rw [Unclosed, hstopAll]
          exact hlast
        · exact ⟨stop, _, .last hround (.seqRefused hblocked.comma), .inr (hblocked.unclosed hcloser)⟩

/-- Elements of a pattern that are tried on expressions with commas between are refused, or they
stop at their end, or before a place where no bracket closes. -/
theorem matches_elements {r : Rule} {closer : Char} (hcloser : closer = ')' ∨ closer = ']')
    {first : Expr} (hes : ∀ e ∈ first :: es, e.IsGrouped ∧ Tried r e)
    (hdrop : place.drop? (Expr.itemized (first :: es)) = some after) (hend : Follows brackets after) :
    Derives grammar .spaced (separated "," (.rule r)) place none ∨
      ∃ stop trees, Matches grammar .spaced (separated "," (.rule r)) place ⟨stop, trees⟩ ∧
        (skipLayout stop = skipLayout after ∨ Unclosed closer stop) := by
  obtain ⟨⟨-, htried⟩, hrest⟩ := List.forall_mem_cons.1 hes
  obtain ⟨middle, hitem, hlisted⟩ := Cursor.drop?_append_eq_some hdrop
  have hfollows := follows_item hlisted hend
  rcases htried _ _ hitem (hfollows.mono (by decide)) with hrefused | ⟨stop, trees, hmatch, hstop⟩
  · exact .inl (.seqRefused hrefused)
  · refine .inr ?_
    rcases hstop with hend | hblocked
    · obtain ⟨stopRest, treesRest, hmany, hlast⟩ := matches_further hcloser hrest hlisted ‹_›
      exact ⟨stopRest, _, matches_seq hmatch hend hmany, hlast⟩
    · refine ⟨skipLayout stop, _, matches_seq hmatch rfl (.noMore (.seqRefused hblocked.comma)),
        .inr ?_⟩
      rw [Unclosed, skipLayout_skipLayout]
      exact hblocked.unclosed hcloser

/-- A pattern that is tried on a list is refused, or it reads the list. -/
theorem halts_arrayPattern (hes : ∀ e ∈ es, e.IsGrouped ∧ Tried .patternSlot e)
    (hdrop : place.drop? ('[' :: (Expr.itemized es ++ [']'])) = some after) :
    Derives grammar .spaced (.rule .arrayPattern) place none ∨
      ∃ trees, Matches grammar .spaced (.rule .arrayPattern) place ⟨after, trees⟩ := by
  obtain ⟨offset, rest, rfl, hbehind⟩ := Cursor.drop?_cons_eq_some hdrop
  obtain ⟨middle, hitems, hclose⟩ := Cursor.drop?_append_eq_some hbehind
  obtain ⟨hfollows, hsettled⟩ := follows_bracket (.inr rfl) hclose
  have hopen : Matches grammar .spaced "[" ⟨offset, '[' :: rest⟩
      ⟨⟨offset + '['.utf8Size, rest⟩, []⟩ := .text rfl
  have hplace := settled_items (.inr rfl) (fun e he => (hes e he).1) hitems hclose
  have hbracket : Matches grammar .spaced "]" middle ⟨after, []⟩ := .text hclose
  cases es with
  | nil =>
      obtain rfl := Option.some.inj hitems
      have hslot : Derives grammar .spaced (oneOf [Rule.restElement, Rule.bindingElement] :
          Peg.Expr Rule) (skipLayout ⟨offset + '['.utf8Size, rest⟩) none :=
        hfollows.refused (by decide)
      have hcomma : Derives grammar .spaced (.seq "," (.rule .patternSlot))
          (skipLayout ⟨offset + '['.utf8Size, rest⟩) none := hfollows.refused (by decide)
      rw [hsettled] at hslot hcomma
      have hnone := matches_rule .spaced .patternSlot nofun nofun (.absent hslot)
      exact .inr ⟨_, matches_rule .spaced .arrayPattern nofun nofun
        (matches_seq hopen hplace (matches_seq (matches_seq hnone hsettled (.noMore hcomma))
          hsettled hbracket))⟩
  | cons first es =>
      have hnone (h : Derives grammar .spaced
          (.seq (separated "," (.rule .patternSlot)) "]") (skipLayout ⟨_, rest⟩) none) :
          Derives grammar .spaced (.rule .arrayPattern) ⟨offset, '[' :: rest⟩ none :=
        .rule_none (.seq_none hopen h)
      rw [hplace] at hnone
      rcases matches_elements (.inr rfl) hes hitems hfollows with
        hrefused | ⟨stop, trees, hmatch, hend | hunclosed⟩
      · exact .inl (hnone (.seqRefused hrefused))
      · exact .inr ⟨_, matches_rule .spaced .arrayPattern nofun nofun
          (matches_seq hopen hplace (matches_seq hmatch (hend.trans hsettled) hbracket))⟩
      · exact .inl (hnone (.seq_none hmatch hunclosed.1))

/-- What is tried on a list is refused, or it reads the list. -/
theorem haltsAt_list (hes : ∀ e ∈ es, e.IsGrouped ∧ Tried .patternSlot e) (span : Span)
    (hf : f ∈ detours) : HaltsAt f (.list es span) := by
  intro place after hdrop hword
  rw [Expr.text_list] at hdrop
  have hat : (Start.text ['[']).At place := Start.at_text rfl hdrop
  simp only [detours, List.mem_cons, List.not_mem_nil, or_false] at hf
  rcases hf with rfl | rfl | rfl
  · exact .inl (hat.refused (by decide))
  · rcases halts_arrayPattern hes hdrop with hrefused | ⟨trees, hmatch⟩
    · exact .inl (.rule_none (.altSecond hrefused (hat.refused (by decide))))
    · exact .inr ⟨after, _, matches_rule .spaced .bindingTarget nofun nofun (.altFirst _ hmatch),
        .inl rfl⟩
  · exact .inl (hat.refused (by decide))

/-! ## Parameters -/

/-- The expressions with commas between that an expression consists of. -/
def Expr.items : Expr → List Expr
  | .sequence exprs _ => exprs
  | e => [e]

theorem Expr.items_of_not_sequence (h : e.isSequence = false) : e.items = [e] := by
  cases e <;> first | rfl | contradiction

theorem Expr.text_items (e : Expr) : e.render.toList = itemized e.items := by
  cases hsequence : e.isSequence with
  | true =>
      cases e with
      | sequence exprs span => exact text_sequence exprs span
      | _ => contradiction
  | false =>
      rw [items_of_not_sequence hsequence, itemized, listed, List.flatMap_nil, List.append_nil,
        item, hsequence]
      rfl

/-- A list of parameters that is tried on an expression in parentheses is refused, or it reads the
expression. -/
theorem encloses_parenParams {first : Expr} (hitems : e.items = first :: es)
    (hes : ∀ e ∈ first :: es, e.IsGrouped ∧ Tried .param e) : Encloses parenParams e := by
  intro place after hdrop
  rw [Expr.sided_true, Expr.text_items, hitems] at hdrop
  obtain ⟨offset, rest, rfl, hbehind⟩ := Cursor.drop?_cons_eq_some hdrop
  obtain ⟨middle, htexts, hclose⟩ := Cursor.drop?_append_eq_some hbehind
  obtain ⟨hfollows, hsettled⟩ := follows_bracket (.inl rfl) hclose
  have hopen : Matches grammar .spaced "(" ⟨offset, '(' :: rest⟩
      ⟨⟨offset + '('.utf8Size, rest⟩, []⟩ := .text rfl
  have hplace := settled_items (.inl rfl) (fun e he => (hes e he).1) htexts hclose
  have hparen : Matches grammar .spaced ")" middle ⟨after, []⟩ := .text hclose
  have hnone (h : Derives grammar .spaced (.seq (.optional (.rule .paramList)) ")")
      (skipLayout ⟨_, rest⟩) none) : Derives grammar .spaced parenParams ⟨offset, '(' :: rest⟩ none :=
    .seq_none hopen h
  rw [hplace] at hnone
  rcases matches_elements (.inl rfl) hes htexts hfollows with
    hrefused | ⟨stop, trees, hmatch, hend | hunclosed⟩
  · refine .inl (hnone (.seq_none (.absent (.rule_none (.seqRefused hrefused))) ?_))
    obtain ⟨next, hfirst, hlisted⟩ := Cursor.drop?_append_eq_some htexts
    have hstart := (hes first List.mem_cons_self).1.sided_start hfirst
      (follows_item hlisted hfollows).word
    change Derives grammar .spaced ")" (skipLayout _) none
    rw [hplace]
    exact hstart.refused (by decide)
  · have hcomma : Derives grammar .spaced "," (skipLayout middle) none :=
      hfollows.refused (by decide)
    have hparams := matches_rule .spaced .paramList nofun nofun
      (matches_seq hmatch hend (.absent hcomma))
    exact .inr ⟨_, matches_seq hopen hplace
      (matches_seq (.present hparams) ((skipLayout_skipLayout middle).trans hsettled) hparen)⟩
  · obtain ⟨result, hcomma, hrefused⟩ := hunclosed.2
    have hparams := matches_rule .spaced .paramList nofun nofun (matches_seq hmatch rfl hcomma)
    exact .inl (hnone (.seq_none (.present hparams) hrefused))

/-! ## Arrow functions and labels -/

/-- Behind an expression, or where it goes on, there is no arrow. -/
theorem refused_arrow (he : e.IsGrouped)
    (h : ∀ f ∈ detours, e.isSequence = false → HaltsAt f e) (hgroup : Encloses parenParams e)
    (hdrop : place.drop? e.item = some after) (hfollows : Follows closers after) :
    Derives grammar .spaced (.rule .arrowFunction) place none := by
  have hstart := he.sided_start hdrop hfollows.word
  have hasync : Matches grammar .spaced (.optional (.rule .kwAsync)) place ⟨place, []⟩ :=
    .absent (hstart.refused (by decide))
  have hbehind {f : Peg.Expr Rule} (hf : f ∈ detours) :
      Derives grammar .spaced f place none ∨ ∃ middle trees,
        Matches grammar .spaced f place ⟨middle, trees⟩ ∧
        Derives grammar .spaced (.seq "=>" (.rule .arrowBody)) (skipLayout middle) none := by
    rcases Halts.item (h f hf) (hgroup.detour hf) hdrop hfollows.word with
      hrefused | ⟨middle, trees, hmatch, rfl | hgoes | hassigns⟩
    · exact .inl hrefused
    · exact .inr ⟨_, trees, hmatch, hfollows.refused (by decide)⟩
    · exact .inr ⟨middle, trees, hmatch, hgoes.refused (by decide)⟩
    · exact .inr ⟨middle, trees, hmatch, hassigns.follows.refused (by decide)⟩
  have hparams : Derives grammar .spaced
      (.seq (.rule .arrowParams) (.seq "=>" (.rule .arrowBody))) place none := by
    rcases hbehind (by simp [detours] : .rule .identifier ∈ detours) with
      hidentifier | ⟨middle, trees, hmatch, harrow⟩
    · rcases hbehind (by simp [detours] : parenParams ∈ detours) with
        hparens | ⟨middle, trees, hmatch, harrow⟩
      · exact .seqRefused (.rule_none (.altSecond hidentifier hparens))
      · exact .seq_none (matches_rule .spaced .arrowParams nofun nofun
          (.altSecond hidentifier hmatch)) harrow
    · exact .seq_none (matches_rule .spaced .arrowParams nofun nofun (.altFirst _ hmatch)) harrow
  refine .rule_none (.seq_none hasync ?_)
  change Derives grammar .spaced _ (skipLayout place) none
  rw [hstart.settled]
  exact hparams

/-- Behind an expression, or where it goes on, there is no colon. -/
theorem refused_label {first : Expr} (hitems : e.items = first :: es)
    (h : first.isSequence = false → HaltsAt (.rule .identifier) first)
    (hdrop : place.drop? e.render.toList = some after) (hend : Follows brackets after) :
    Derives grammar .spaced (.rule .labeledStmt) place none := by
  rw [Expr.text_items, hitems] at hdrop
  obtain ⟨middle, hitem, hlisted⟩ := Cursor.drop?_append_eq_some hdrop
  have hfollows := follows_item hlisted hend
  have hgroup : Encloses (.rule .identifier) first := encloses_of_refuses (by decide)
  rcases Halts.item h hgroup hitem hfollows.word with
    hrefused | ⟨stop, trees, hmatch, rfl | hgoes | hassigns⟩
  · exact .rule_none (.seqRefused hrefused)
  · exact .rule_none (.seq_none hmatch (hfollows.refused (by decide)))
  · exact .rule_none (.seq_none hmatch (hgoes.refused (by decide)))
  · exact .rule_none (.seq_none hmatch (hassigns.follows.refused (by decide)))

end EventLoop.Script
