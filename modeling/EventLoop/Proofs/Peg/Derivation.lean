import EventLoop.Peg.Match
import EventLoop.Proofs.Source.Place

/-!
# What a grammar says of a text

`Derives` says what an expression comes to at a place of a text: a match, or
nothing.  It has no bounds and keeps no account of attempts, so that it says what
the grammar means, and every match has a reason.  An expression comes to one
thing at most (`Derives.unique`).

A repetition ends where the layout behind its last round is not followed by a
further round; the layout is then not part of the match.
-/

namespace EventLoop.Peg

variable {R : Type}

/-- What is matched at a place: the place behind it, and the trees of the
recorded rules. -/
structure Match (R : Type) where
  stop : Cursor
  trees : List (Tree R)

/-- A match with the trees of what was matched before it. -/
def Match.after (trees : List (Tree R)) (result : Match R) : Match R :=
  ⟨result.stop, trees ++ result.trees⟩

/-- What the match of a rule's body is for the rule. -/
def Grammar.record (grammar : Grammar R) (mode : Mode) (rule : R) (start : Cursor)
    (result : Match R) : Match R :=
  if grammar.kind rule = .hidden ∨ mode = .token then result
  else ⟨result.stop, [.node rule start result.stop result.trees]⟩

section Derivations

variable (grammar : Grammar R)

/-- What an expression comes to at a place. -/
inductive Derives : Mode → Expr R → Cursor → Option (Match R) → Prop where
  | text (mode : Mode) (characters : List Char) (cursor : Cursor) :
      Derives mode (.text characters) cursor ((cursor.drop? characters).map (⟨·, []⟩))
  | char (mode : Mode) (accepts : Char → Bool) (cursor : Cursor) :
      Derives mode (.char accepts) cursor ((cursor.next? accepts).map (⟨·, []⟩))
  | endOfText (mode : Mode) (cursor : Cursor) :
      Derives mode .endOfText cursor (if cursor.rest.isEmpty then some ⟨cursor, []⟩ else none)
  | rule {mode : Mode} {r : R} {cursor : Cursor} {result : Option (Match R)}
      (h : Derives ((grammar.kind r).modeIn mode) (grammar.body r) cursor result) :
      Derives mode (.rule r) cursor (result.map (grammar.record mode r cursor))
  | seqRefused {mode : Mode} {e f : Expr R} {cursor : Cursor} (h : Derives mode e cursor none) :
      Derives mode (.seq e f) cursor none
  | seq {mode : Mode} {e f : Expr R} {cursor : Cursor} {first : Match R}
      {result : Option (Match R)} (h : Derives mode e cursor (some first))
      (hrest : Derives mode f (grammar.skip mode first.stop) result) :
      Derives mode (.seq e f) cursor (result.map (Match.after first.trees))
  | altFirst {mode : Mode} {e : Expr R} {cursor : Cursor} {result : Match R} (f : Expr R)
      (h : Derives mode e cursor (some result)) : Derives mode (.alt e f) cursor (some result)
  | altSecond {mode : Mode} {e f : Expr R} {cursor : Cursor} {result : Option (Match R)}
      (h : Derives mode e cursor none) (hsecond : Derives mode f cursor result) :
      Derives mode (.alt e f) cursor result
  | optional {mode : Mode} {e : Expr R} {cursor : Cursor} {result : Option (Match R)}
      (h : Derives mode e cursor result) :
      Derives mode (.optional e) cursor (some (result.getD ⟨cursor, []⟩))
  | manyNone {mode : Mode} {e : Expr R} {cursor : Cursor} (h : Derives mode e cursor none) :
      Derives mode (.many e) cursor (some ⟨cursor, []⟩)
  | manyLast {mode : Mode} {e : Expr R} {cursor : Cursor} {last : Match R}
      (h : Derives mode e cursor (some last))
      (hend : Derives mode e (grammar.skip mode last.stop) none) :
      Derives mode (.many e) cursor (some last)
  | manyMore {mode : Mode} {e : Expr R} {cursor : Cursor} {first second rest : Match R}
      (h : Derives mode e cursor (some first))
      (hnext : Derives mode e (grammar.skip mode first.stop) (some second))
      (hrest : Derives mode (.many e) (grammar.skip mode first.stop) (some rest)) :
      Derives mode (.many e) cursor (some (rest.after first.trees))
  | unless {mode : Mode} {e : Expr R} {cursor : Cursor} {result : Option (Match R)}
      (h : Derives mode e cursor result) :
      Derives mode (.unless e) cursor (if result.isSome then none else some ⟨cursor, []⟩)

end Derivations

variable {grammar : Grammar R} {mode : Mode} {e : Expr R} {cursor : Cursor}

/-- An expression comes to one thing at most. -/
theorem Derives.unique {result other : Option (Match R)}
    (h : Derives grammar mode e cursor result) (hother : Derives grammar mode e cursor other) :
    result = other := by
  induction h generalizing other with
  | text | char | endOfText => cases hother; rfl
  | rule _ ih =>
      cases hother with
      | rule h => rw [ih h]
  | seqRefused _ ih =>
      cases hother with
      | seqRefused => rfl
      | seq h _ => exact nomatch ih h
  | seq _ _ ih ihrest =>
      cases hother with
      | seqRefused h => exact nomatch ih h
      | seq h hrest =>
          obtain rfl := Option.some.inj (ih h)
          rw [ihrest hrest]
  | altFirst f _ ih =>
      cases hother with
      | altFirst _ h => exact ih h
      | altSecond h _ => exact nomatch ih h
  | altSecond _ _ ih ihsecond =>
      cases hother with
      | altFirst _ h => exact nomatch ih h
      | altSecond _ hsecond => exact ihsecond hsecond
  | optional _ ih =>
      cases hother with
      | optional h => rw [ih h]
  | manyNone _ ih =>
      cases hother with
      | manyNone => rfl
      | manyLast h _ => exact nomatch ih h
      | manyMore h _ _ => exact nomatch ih h
  | manyLast _ _ ih ihend =>
      cases hother with
      | manyNone h => exact nomatch ih h
      | manyLast h _ => exact ih h
      | manyMore h hnext _ =>
          obtain rfl := Option.some.inj (ih h)
          exact nomatch ihend hnext
  | manyMore _ _ _ ih ihnext ihrest =>
      cases hother with
      | manyNone h => exact nomatch ih h
      | manyLast h hend =>
          obtain rfl := Option.some.inj (ih h)
          exact nomatch ihnext hend
      | manyMore h _ hrest =>
          obtain rfl := Option.some.inj (ih h)
          obtain rfl := Option.some.inj (ihrest hrest)
          rfl
  | «unless» _ ih =>
      cases hother with
      | «unless» h => rw [ih h]

/-! ## Matches

What holds of all matches is shown by going through the ways in which an
expression can match.  Of what does not match it is only known that it does not.
-/

section Matches

variable (grammar : Grammar R)

/-- An expression matches at a place. -/
inductive Matches : Mode → Expr R → Cursor → Match R → Prop where
  | text {mode : Mode} {characters : List Char} {cursor stop : Cursor}
      (h : cursor.drop? characters = some stop) : Matches mode (.text characters) cursor ⟨stop, []⟩
  | char {mode : Mode} {accepts : Char → Bool} {cursor stop : Cursor}
      (h : cursor.next? accepts = some stop) : Matches mode (.char accepts) cursor ⟨stop, []⟩
  | endOfText (mode : Mode) (offset : Nat) : Matches mode .endOfText ⟨offset, []⟩ ⟨⟨offset, []⟩, []⟩
  | rule {mode : Mode} {r : R} {cursor : Cursor} {result : Match R}
      (h : Matches ((grammar.kind r).modeIn mode) (grammar.body r) cursor result) :
      Matches mode (.rule r) cursor (grammar.record mode r cursor result)
  | seq {mode : Mode} {e f : Expr R} {cursor : Cursor} {first second : Match R}
      (h : Matches mode e cursor first)
      (hrest : Matches mode f (grammar.skip mode first.stop) second) :
      Matches mode (.seq e f) cursor (second.after first.trees)
  | altFirst {mode : Mode} {e : Expr R} {cursor : Cursor} {result : Match R} (f : Expr R)
      (h : Matches mode e cursor result) : Matches mode (.alt e f) cursor result
  | altSecond {mode : Mode} {e f : Expr R} {cursor : Cursor} {result : Match R}
      (hfirst : Derives grammar mode e cursor none) (h : Matches mode f cursor result) :
      Matches mode (.alt e f) cursor result
  | absent {mode : Mode} {e : Expr R} {cursor : Cursor} (h : Derives grammar mode e cursor none) :
      Matches mode (.optional e) cursor ⟨cursor, []⟩
  | present {mode : Mode} {e : Expr R} {cursor : Cursor} {result : Match R}
      (h : Matches mode e cursor result) : Matches mode (.optional e) cursor result
  | noMore {mode : Mode} {e : Expr R} {cursor : Cursor} (h : Derives grammar mode e cursor none) :
      Matches mode (.many e) cursor ⟨cursor, []⟩
  | last {mode : Mode} {e : Expr R} {cursor : Cursor} {last : Match R}
      (h : Matches mode e cursor last)
      (hend : Derives grammar mode e (grammar.skip mode last.stop) none) :
      Matches mode (.many e) cursor last
  | more {mode : Mode} {e : Expr R} {cursor : Cursor} {first second rest : Match R}
      (h : Matches mode e cursor first)
      (hnext : Matches mode e (grammar.skip mode first.stop) second)
      (hrest : Matches mode (.many e) (grammar.skip mode first.stop) rest) :
      Matches mode (.many e) cursor (rest.after first.trees)
  | unless {mode : Mode} {e : Expr R} {cursor : Cursor} (h : Derives grammar mode e cursor none) :
      Matches mode (.unless e) cursor ⟨cursor, []⟩

end Matches

theorem Derives.matches {outcome : Option (Match R)} (h : Derives grammar mode e cursor outcome) :
    ∀ result, outcome = some result → Matches grammar mode e cursor result := by
  induction h with
  | text mode characters cursor =>
      intro result hresult
      obtain ⟨stop, hstop, rfl⟩ := Option.map_eq_some_iff.1 hresult
      exact .text hstop
  | char mode accepts cursor =>
      intro result hresult
      obtain ⟨stop, hstop, rfl⟩ := Option.map_eq_some_iff.1 hresult
      exact .char hstop
  | endOfText mode cursor =>
      intro result hresult
      obtain ⟨hend, hresult⟩ := Option.ite_none_right_eq_some.1 hresult
      obtain ⟨offset, rest⟩ := cursor
      obtain rfl : rest = [] := List.isEmpty_iff.1 hend
      obtain rfl := Option.some.inj hresult
      exact .endOfText mode offset
  | rule _ ih =>
      intro result hresult
      obtain ⟨inner, rfl, rfl⟩ := Option.map_eq_some_iff.1 hresult
      exact .rule (ih inner rfl)
  | seqRefused => nofun
  | seq _ _ ih ihrest =>
      intro result hresult
      obtain ⟨second, rfl, rfl⟩ := Option.map_eq_some_iff.1 hresult
      exact .seq (ih _ rfl) (ihrest second rfl)
  | altFirst f _ ih => exact fun result hresult => .altFirst f (ih result hresult)
  | altSecond h _ _ ih => exact fun result hresult => .altSecond h (ih result hresult)
  | @optional mode e cursor outcome h ih =>
      intro result hresult
      obtain rfl := Option.some.inj hresult
      cases outcome with
      | none => exact .absent h
      | some inner => exact .present (ih inner rfl)
  | manyNone h =>
      intro result hresult
      obtain rfl := Option.some.inj hresult
      exact .noMore h
  | manyLast _ hend ih =>
      intro result hresult
      obtain rfl := Option.some.inj hresult
      exact .last (ih _ rfl) hend
  | manyMore _ _ _ ih ihnext ihrest =>
      intro result hresult
      obtain rfl := Option.some.inj hresult
      exact .more (ih _ rfl) (ihnext _ rfl) (ihrest _ rfl)
  | @«unless» mode e cursor outcome h =>
      intro result hresult
      cases outcome with
      | none =>
          obtain rfl := Option.some.inj hresult
          exact .unless h
      | some inner => contradiction

theorem Matches.derives {result : Match R} (h : Matches grammar mode e cursor result) :
    Derives grammar mode e cursor (some result) := by
  induction h with
  | @text mode characters cursor stop h =>
      have hderives : Derives grammar mode (.text characters) cursor _ :=
        .text mode characters cursor
      rwa [h] at hderives
  | @char mode accepts cursor stop h =>
      have hderives : Derives grammar mode (.char accepts) cursor _ :=
        .char mode accepts cursor
      rwa [h] at hderives
  | endOfText mode offset => exact .endOfText mode ⟨offset, []⟩
  | rule _ ih => exact .rule ih
  | seq _ _ ih ihrest => exact .seq ih ihrest
  | altFirst f _ ih => exact .altFirst f ih
  | altSecond h _ ih => exact .altSecond h ih
  | absent h => exact .optional h
  | present _ ih => exact .optional ih
  | noMore h => exact .manyNone h
  | last _ hend ih => exact .manyLast ih hend
  | more _ _ _ ih ihnext ihrest => exact .manyMore ih ihnext ihrest
  | «unless» h => exact .unless h

/-- An expression matches in one way at most. -/
theorem Matches.unique {result other : Match R} (h : Matches grammar mode e cursor result)
    (hother : Matches grammar mode e cursor other) : result = other :=
  Option.some.inj (h.derives.unique hother.derives)

/-- What matches is not refused. -/
theorem Matches.not_refused {result : Match R} (h : Matches grammar mode e cursor result) :
    ¬ Derives grammar mode e cursor none :=
  fun hrefused => nomatch h.derives.unique hrefused

/-- A rule matches what its body matches. -/
theorem Matches.of_rule {r : R} {result : Match R}
    (h : Matches grammar mode (.rule r) cursor result) :
    ∃ inner, Matches grammar ((grammar.kind r).modeIn mode) (grammar.body r) cursor inner ∧
      result = grammar.record mode r cursor inner := by
  cases h with
  | rule h => exact ⟨_, h, rfl⟩

/-- A rule that is recorded matches with a tree of its own. -/
theorem Matches.of_recorded {r : R} {result : Match R}
    (h : Matches grammar mode (.rule r) cursor result) (hkind : grammar.kind r ≠ .hidden)
    (hmode : mode ≠ .token) :
    ∃ inner, Matches grammar ((grammar.kind r).modeIn mode) (grammar.body r) cursor inner ∧
      result = ⟨inner.stop, [.node r cursor inner.stop inner.trees]⟩ := by
  obtain ⟨inner, hinner, rfl⟩ := h.of_rule
  exact ⟨inner, hinner, if_neg (not_or.2 ⟨hkind, hmode⟩)⟩

/-- A choice matches what one of its alternatives matches, if those before it are refused. -/
theorem Matches.oneOf {before behind : List (Expr R)} {result : Match R}
    (hbefore : ∀ other ∈ before, Derives grammar mode other cursor none)
    (h : Matches grammar mode e cursor result) :
    Matches grammar mode (Peg.oneOf (before ++ e :: behind)) cursor result := by
  induction before with
  | nil =>
      cases behind with
      | nil => exact h
      | cons next behind => exact .altFirst _ h
  | cons first before ih =>
      obtain ⟨hfirst, hrest⟩ := List.forall_mem_cons.1 hbefore
      have hothers := ih hrest
      cases before with
      | nil => exact .altSecond hfirst hothers
      | cons next before => exact .altSecond hfirst hothers

/-! ## Refusals -/

theorem Derives.text_none {characters : List Char} (h : cursor.drop? characters = none) :
    Derives grammar mode (.text characters) cursor none := by
  have hderives : Derives grammar mode (.text characters) cursor _ := .text mode characters cursor
  rwa [h] at hderives

theorem Derives.char_none {accepts : Char → Bool} (h : cursor.next? accepts = none) :
    Derives grammar mode (.char accepts) cursor none := by
  have hderives : Derives grammar mode (.char accepts) cursor _ := .char mode accepts cursor
  rwa [h] at hderives

theorem Derives.of_char_none {accepts : Char → Bool}
    (h : Derives grammar mode (.char accepts) cursor none) : cursor.next? accepts = none := by
  generalize hnone : none = outcome at h
  cases h with
  | char => exact Option.map_eq_none_iff.1 hnone.symm

/-- A rule is refused where its body is. -/
theorem Derives.rule_none {r : R}
    (h : Derives grammar ((grammar.kind r).modeIn mode) (grammar.body r) cursor none) :
    Derives grammar mode (.rule r) cursor none :=
  .rule h

/-- A sequence is refused where its second part is, behind the first. -/
theorem Derives.seq_none {f : Expr R} {first : Match R} (h : Matches grammar mode e cursor first)
    (hrest : Derives grammar mode f (grammar.skip mode first.stop) none) :
    Derives grammar mode (.seq e f) cursor none :=
  .seq h.derives hrest

/-- A sequence matches what its parts match, one after the other. -/
theorem Matches.of_seq {f : Expr R} {result : Match R}
    (h : Matches grammar mode (.seq e f) cursor result) :
    ∃ first second, Matches grammar mode e cursor first ∧
      Matches grammar mode f (grammar.skip mode first.stop) second ∧
      result = second.after first.trees := by
  cases h with
  | seq h hrest => exact ⟨_, _, h, hrest, rfl⟩

/-- A choice matches what one of its alternatives matches. -/
theorem Matches.of_oneOf {es : List (Expr R)} {result : Match R} (hes : es ≠ [])
    (h : Matches grammar mode (Peg.oneOf es) cursor result) :
    ∃ e ∈ es, Matches grammar mode e cursor result := by
  induction es with
  | nil => contradiction
  | cons e es ih =>
      cases es with
      | nil => exact ⟨e, List.mem_cons_self, h⟩
      | cons next es =>
          cases h with
          | altFirst _ h => exact ⟨e, List.mem_cons_self, h⟩
          | altSecond _ h =>
              obtain ⟨other, hother, h⟩ := ih (List.cons_ne_nil next es) h
              exact ⟨other, List.mem_cons_of_mem e hother, h⟩

/-- Where the last of some alternatives matches, either those before it are refused, or one of
them matches, too. -/
theorem Matches.of_oneOf_last {before : List (Expr R)} {result : Match R}
    (h : Matches grammar mode (Peg.oneOf (before ++ [e])) cursor result) :
    (∃ other ∈ before, Matches grammar mode other cursor result) ∨
      (∀ other ∈ before, Derives grammar mode other cursor none) ∧
        Matches grammar mode e cursor result := by
  induction before with
  | nil => exact .inr ⟨by simp, h⟩
  | cons first before ih =>
      have hchoice : Matches grammar mode (.alt first (Peg.oneOf (before ++ [e]))) cursor result := by
        cases before with
        | nil => exact h
        | cons next before => exact h
      cases hchoice with
      | altFirst _ hfirst => exact .inl ⟨first, List.mem_cons_self, hfirst⟩
      | altSecond hrefused hrest =>
          rcases ih hrest with ⟨other, hother, hmatches⟩ | ⟨hbefore, hlast⟩
          · exact .inl ⟨other, List.mem_cons_of_mem first hother, hmatches⟩
          · exact .inr ⟨List.forall_mem_cons.2 ⟨hrefused, hbefore⟩, hlast⟩

theorem Derives.of_text_none {characters : List Char}
    (h : Derives grammar mode (.text characters) cursor none) : cursor.drop? characters = none := by
  generalize hnone : none = outcome at h
  cases h with
  | text => exact Option.map_eq_none_iff.1 hnone.symm

theorem Matches.drop?_eq {characters : List Char} {result : Match R}
    (h : Matches grammar mode (.text characters) cursor result) :
    cursor.drop? characters = some result.stop := by
  cases h with
  | text h => exact h

theorem Matches.of_unless {result : Match R} (h : Matches grammar mode (.unless e) cursor result) :
    result = ⟨cursor, []⟩ := by
  cases h with
  | «unless» => rfl

/-- Where a sequence is refused, one of its parts is. -/
theorem Derives.of_seq_none {f : Expr R} (h : Derives grammar mode (.seq e f) cursor none) :
    Derives grammar mode e cursor none ∨
      ∃ first, Matches grammar mode e cursor first ∧
        Derives grammar mode f (grammar.skip mode first.stop) none := by
  generalize hnone : none = outcome at h
  cases h with
  | seqRefused h => exact .inl h
  | seq h hrest =>
      obtain rfl := Option.map_eq_none_iff.1 hnone.symm
      exact .inr ⟨_, h.matches _ rfl, hrest⟩

/-- Where a choice is refused, its alternatives are. -/
theorem Derives.of_alt_none {f : Expr R} (h : Derives grammar mode (.alt e f) cursor none) :
    Derives grammar mode e cursor none ∧ Derives grammar mode f cursor none := by
  cases h with
  | altSecond h hsecond => exact ⟨h, hsecond⟩

/-- What is not to stand at a place stands there if this is refused. -/
theorem Derives.of_unless_none (h : Derives grammar mode (.unless e) cursor none) :
    ∃ result, Matches grammar mode e cursor result := by
  generalize hnone : none = outcome at h
  cases h with
  | @«unless» _ _ _ result h =>
      cases result with
      | none => contradiction
      | some result => exact ⟨result, h.matches _ rfl⟩

/-- A repetition matches, be it without a round. -/
theorem Derives.not_many : ¬ Derives grammar mode (.many e) cursor none :=
  nofun

/-- Behind a repetition there is no further round. -/
theorem Matches.many_end {result : Match R} (h : Matches grammar mode (.many e) cursor result) :
    Derives grammar mode e (grammar.skip mode result.stop) none ∨
      result = ⟨cursor, []⟩ ∧ Derives grammar mode e cursor none := by
  generalize hmany : Expr.many e = repetition at h
  induction h with
  | noMore h =>
      obtain rfl := Expr.many.inj hmany
      exact .inr ⟨rfl, h⟩
  | last _ hend =>
      obtain rfl := Expr.many.inj hmany
      exact .inl hend
  | more _ hnext _ _ _ ih =>
      obtain rfl := Expr.many.inj hmany
      rcases ih rfl with hend | ⟨-, hrefused⟩
      · exact .inl hend
      · exact absurd hrefused hnext.not_refused
  | _ => contradiction

/-- A round of a repetition before others. -/
theorem Matches.many_cons {first rest : Match R}
    (hskip : ∀ place, grammar.skip mode (grammar.skip mode place) = grammar.skip mode place)
    (h : Matches grammar mode e cursor first)
    (hmany : Matches grammar mode (.many e) (grammar.skip mode first.stop) rest) :
    ∃ stop, Matches grammar mode (.many e) cursor ⟨stop, first.trees ++ rest.trees⟩ ∧
      grammar.skip mode stop = grammar.skip mode rest.stop := by
  cases hmany with
  | noMore hrefused =>
      rw [List.append_nil]
      exact ⟨first.stop, .last h hrefused, (hskip first.stop).symm⟩
  | last hnext hend => exact ⟨rest.stop, .more h hnext (.last hnext hend), rfl⟩
  | more hnext hsecond hrest => exact ⟨_, .more h hnext (.more hnext hsecond hrest), rfl⟩

end EventLoop.Peg
