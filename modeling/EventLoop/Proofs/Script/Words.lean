import EventLoop.Proofs.Script.Raw

/-!
# Words

A word stands in a text where no name goes on before or behind it (`HasWord`).  What
a rule reads does not end in the middle of a word (`seam_of_seals`): a token that
ends with a name is as long as the name, and so is raw text.  Layout does not end in a
word either (`exists_gap`).  So a statement that follows another one does not start in the
middle of a word.
-/

namespace EventLoop.Script

open Peg

/-- Whether a text starts with a character that a name goes on with. -/
def startsInName (text : List Char) : Bool :=
  text.head?.any isNameChar

/-- Whether a text ends with a character that a name goes on with. -/
def endsInName (text : List Char) : Bool :=
  text.getLast?.any isNameChar

/-- A word stands somewhere in a text, and no name goes on around it. -/
def HasWord (word : String) (text : List Char) : Prop :=
  ∃ before after, text = before ++ word.toList ++ after ∧ endsInName before = false ∧
    startsInName after = false

theorem hasWord_iff {word : String} {text : List Char} :
    HasWord word text ↔ ∃ i < text.length + 1, word.toList <+: text.drop i ∧
      endsInName (text.take i) = false ∧
      startsInName ((text.drop i).drop word.toList.length) = false := by
  constructor
  · rintro ⟨before, after, rfl, hbefore, hafter⟩
    refine ⟨before.length, by rw [List.length_append, List.length_append]; omega, ?_⟩
    rw [List.append_assoc, List.drop_left, List.take_left, List.drop_left]
    exact ⟨List.prefix_append _ _, hbefore, hafter⟩
  · rintro ⟨i, -, ⟨after, hafter⟩, hbefore, hend⟩
    rw [← hafter, List.drop_left] at hend
    refine ⟨text.take i, after, ?_, hbefore, hend⟩
    rw [List.append_assoc, hafter, List.take_append_drop]

instance (word : String) (text : List Char) : Decidable (HasWord word text) :=
  decidable_of_iff _ hasWord_iff.symm

/-- A name that ends like a word does not have it. -/
example : HasWord "case" "of case 1".toList ∧ ¬ HasWord "case" "lowercase".toList := by decide

/-- No name goes on from one text to the other. -/
def Seam (read rest : List Char) : Prop :=
  endsInName read = false ∨ startsInName rest = false

theorem endsInName_append {first rest : List Char} (h : rest ≠ []) :
    endsInName (first ++ rest) = endsInName rest := by
  obtain ⟨c, hc⟩ := Option.isSome_iff_exists.1 (List.getLast?_isSome.2 h)
  rw [endsInName, endsInName, List.getLast?_append, hc, Option.some_or]

/-- Blanks do not end in a name. -/
theorem not_isNameChar_of_isLayoutBlank {c : Char} (h : isLayoutBlank c = true) :
    isNameChar c = false := by
  simp only [isLayoutBlank, Bool.or_eq_true, decide_eq_true_eq] at h
  rcases h with ((rfl | rfl) | rfl) | rfl <;> rfl

theorem isLayoutBlank_of_isLineEnd {c : Char} (h : isLineEnd c = true) :
    isLayoutBlank c = true := by
  simp only [isLineEnd, Bool.or_eq_true, decide_eq_true_eq] at h
  rcases h with rfl | rfl <;> rfl

theorem endsInName_blanks {blanks : List Char} (h : ∀ c ∈ blanks, isLayoutBlank c = true) :
    endsInName blanks = false := by
  unfold endsInName
  cases hlast : blanks.getLast? with
  | none => rfl
  | some c => exact not_isNameChar_of_isLayoutBlank (h c (List.mem_of_getLast? hlast))

theorem Seam.blanks {read blanks rest : List Char} (h : Seam read (blanks ++ rest))
    (hblanks : ∀ c ∈ blanks, isLayoutBlank c = true) : Seam (read ++ blanks) rest := by
  by_cases hnone : blanks = []
  · subst hnone
    rwa [List.append_nil]
  · exact .inl (by rw [endsInName_append hnone, endsInName_blanks hblanks])

/-! ## Places where no name goes on -/

/-- No name goes on from what is before the rest of a text to the rest. -/
def AtSeam (text rest : List Char) : Prop :=
  ∃ read, text = read ++ rest ∧ Seam read rest

namespace AtSeam

variable {text rest : List Char}

theorem refl (text : List Char) : AtSeam text text :=
  ⟨[], rfl, .inl rfl⟩

theorem of_startsInName (hsuffix : rest <:+ text) (h : startsInName rest = false) :
    AtSeam text rest := by
  obtain ⟨read, rfl⟩ := hsuffix
  exact ⟨read, rfl, .inr h⟩

/-- Behind a character that is no part of a name. -/
theorem behind {c : Char} (hsuffix : c :: rest <:+ text) (hc : isNameChar c = false) :
    AtSeam text rest := by
  obtain ⟨read, rfl⟩ := hsuffix
  refine ⟨read ++ [c], by rw [List.append_assoc]; rfl, .inl ?_⟩
  rw [endsInName_append (List.cons_ne_nil _ _)]
  exact hc

/-- Blanks and comments do not end in a name. -/
theorem skipFrom (skipping : Skipping) (offset : Nat) (rest : List Char) (hsuffix : rest <:+ text)
    (hblanks : skipping = .blanks → AtSeam text rest)
    (hcomment : ∀ start, skipping = .blockComment start → AtSeam text start.rest) :
    AtSeam text (skipFrom skipping offset rest).rest := by
  fun_induction Script.skipFrom skipping offset rest with
  | case1 start => exact hcomment start rfl
  | case2 => exact of_startsInName hsuffix rfl
  | case3 offset rest ih =>
      exact ih ((List.suffix_append ['/', '/'] rest).trans hsuffix) (by simp) (by simp)
  | case4 offset rest ih =>
      refine ih ((List.suffix_append ['/', '*'] rest).trans hsuffix) (by simp) fun start hstart => ?_
      obtain rfl := Skipping.blockComment.inj hstart
      exact of_startsInName hsuffix rfl
  | case5 offset c rest _ _ hblank ih =>
      exact ih ((List.suffix_cons c rest).trans hsuffix)
        (fun _ => behind hsuffix (not_isNameChar_of_isLayoutBlank hblank)) (by simp)
  | case6 => exact hblanks rfl
  | case7 offset c rest ih =>
      refine ih ((List.suffix_cons c rest).trans hsuffix) (fun hblanks => ?_) fun start hstart => ?_
      · refine behind hsuffix (not_isNameChar_of_isLayoutBlank ?_)
        split at hblanks
        · rename_i hend
          exact isLayoutBlank_of_isLineEnd hend
        · contradiction
      · split at hstart <;> contradiction
  | case8 start offset rest ih =>
      have hslash : '/' :: rest <:+ text := (List.suffix_cons '*' _).trans hsuffix
      exact ih ((List.suffix_cons '/' rest).trans hslash) (fun _ => behind hslash rfl) (by simp)
  | case9 start offset c rest _ ih =>
      exact ih ((List.suffix_cons c rest).trans hsuffix) (by simp) hcomment

theorem skip (mode : Mode) {place : Cursor} (h : AtSeam text place.rest) :
    AtSeam text (grammar.skip mode place).rest := by
  obtain ⟨read, htext, -⟩ := id h
  unfold Grammar.skip
  split
  · exact skipFrom .blanks place.offset place.rest ⟨read, htext.symm⟩ (fun _ => h) nofun
  · exact h

/-- A part of a text that is followed by no name is followed by none in the whole text. -/
theorem trans {middle : List Char} (h : AtSeam text middle) (hrest : AtSeam middle rest) :
    AtSeam text rest := by
  obtain ⟨first, rfl, hfirst⟩ := h
  obtain ⟨second, rfl, hsecond⟩ := hrest
  refine ⟨first ++ second, (List.append_assoc ..).symm, ?_⟩
  by_cases hnone : second = []
  · subst hnone
    rwa [List.append_nil]
  · rwa [Seam, endsInName_append hnone]

/-- Where something has been read, it does not matter what was before it. -/
theorem of_read {middle : List Char} (hsuffix : middle <:+ text) (hrest : AtSeam middle rest)
    (hne : middle ≠ rest) : AtSeam text rest := by
  obtain ⟨first, rfl⟩ := hsuffix
  obtain ⟨second, rfl, hsecond⟩ := hrest
  refine ⟨first ++ second, (List.append_assoc ..).symm, ?_⟩
  rwa [Seam, endsInName_append (by rintro rfl; exact hne rfl)]

/-- What has been read ends like that, too. -/
theorem seam {read : List Char} (h : AtSeam text rest) (hread : text = read ++ rest) :
    Seam read rest := by
  obtain ⟨others, hothers, hseam⟩ := h
  rwa [List.append_cancel_right (hread.symm.trans hothers)]

end AtSeam

/-! ## Where a name has ended -/

/-- Tokens that go on as long as a name does. -/
def isWordRule : Rule → Bool
  | .accessor | .number | .boolean | .nullLit | .regexFlags | .opTypeof | .opInstanceof | .opIn
  | .identifierName | .identifier | .declKind | .forKind | .kwAsync | .kwFunction | .kwIf | .kwElse
  | .kwFor | .kwWhile | .kwDo | .kwReturn | .kwThrow | .kwBreak | .kwContinue | .kwTry | .kwCatch
  | .kwFinally | .kwNew | .kwAwait | .kwSwitch | .kwCase | .kwDefault | .kwClass | .kwExtends
  | .kwStatic => true
  | _ => false

variable {mode : Mode} {cursor : Cursor} {result : Match Rule}

theorem startsInName_of_next? {cursor : Cursor} (h : cursor.next? isNameChar = none) :
    startsInName cursor.rest = false := by
  obtain ⟨offset, rest⟩ := cursor
  cases rest with
  | nil => rfl
  | cons c rest =>
      rw [Cursor.next?] at h
      by_cases hc : isNameChar c = true
      · rw [if_pos hc] at h
        contradiction
      · exact Bool.eq_false_iff.2 hc

/-- Behind a word there is no name. -/
theorem startsInName_of_wordEnd {e : Peg.Expr Rule}
    (h : Matches grammar .token (.seq e wordEnd) cursor result) :
    startsInName result.stop.rest = false := by
  cases h with
  | seq _ hend =>
      cases hend with
      | «unless» hrefused => exact startsInName_of_next? hrefused.of_char_none

/-- Behind a name there is no name. -/
theorem startsInName_of_many
    (h : Matches grammar .token (.many (.char isNameChar)) cursor result) :
    startsInName result.stop.rest = false := by
  rcases h.many_end with hrefused | ⟨rfl, hrefused⟩
  · exact startsInName_of_next? hrefused.of_char_none
  · exact startsInName_of_next? hrefused.of_char_none

theorem startsInName_of_name (h : Matches grammar .token name cursor result) :
    startsInName result.stop.rest = false := by
  cases h with
  | seq _ hmany =>
      have hend := startsInName_of_many hmany
      exact hend

theorem startsInName_of_isWordRule {r : Rule} (hr : isWordRule r = true)
    (h : Matches grammar .token (body r) cursor result) :
    startsInName result.stop.rest = false := by
  cases r with
  | regexFlags => exact startsInName_of_many h
  | identifierName => exact startsInName_of_name h
  | identifier =>
      cases h with
      | seq _ hname =>
          have hend := startsInName_of_name hname
          exact hend
  | _ =>
      first
        | contradiction
        | exact startsInName_of_wordEnd h

/-! ## Raw text -/

/-- A character of a name does not end raw text. -/
theorem not_ends_of_isNameChar {c : Char} (h : isNameChar c = true) :
    endsRaw c = false ∧ isBracket c = false := by
  have hne (d : Char) (hd : isNameChar d = false) : c ≠ d := by
    rintro rfl
    rw [h] at hd
    contradiction
  constructor
  · simp [endsRaw, isLineEnd, hne '\n' rfl, hne '\r' rfl, hne ' ' rfl, hne '\t' rfl, hne ';' rfl]
  · simp [isBracket, hne '(' rfl, hne ')' rfl, hne '[' rfl, hne ']' rfl, hne '\x7b' rfl,
      hne '\x7d' rfl, hne '\x22' rfl, hne '\x27' rfl, hne '\x60' rfl]

/-- A character of a name is a unit of raw text. -/
theorem accepts_unknownUnit_of_isNameChar (offset : Nat) {c : Char} (rest : List Char)
    (h : isNameChar c = true) : Accepts .token unknownUnit ⟨offset, c :: rest⟩ := by
  obtain ⟨hends, hbracket⟩ := not_ends_of_isNameChar h
  have hslash : c ≠ '/' := by
    rintro rfl
    contradiction
  have hcomment : Derives grammar .token (oneOf ["//", "/*"]) ⟨offset, c :: rest⟩ none :=
    .altSecond (.text_none (if_neg hslash.symm)) (.text_none (if_neg hslash.symm))
  have hchar : Accepts .token (charBut fun c => isLineEnd c || c = ' ' || c = '\t' || c = ';' ||
      isBracket c) ⟨offset, c :: rest⟩ := by
    refine .char ?_
    simp only [endsRaw] at hends
    simp [hends, hbracket]
  obtain ⟨result, hresult⟩ := hchar
  have hplain : Accepts .token (all [.unless (oneOf ["//", "/*"]), charBut fun c =>
      isLineEnd c || c = ' ' || c = '\t' || c = ';' || isBracket c]) ⟨offset, c :: rest⟩ :=
    ⟨_, .seq (.unless hcomment) hresult⟩
  exact (hplain.altSecond rfl).altSecond rfl

/-- Further units of raw text go on as long as a name does. -/
theorem startsInName_of_units
    (h : Matches grammar .token (.many (.seq inlineSpaces unknownUnit)) cursor result) :
    startsInName result.stop.rest = false := by
  have hend : Derives grammar .token (.seq inlineSpaces unknownUnit) result.stop none := by
    rcases h.many_end with hend | ⟨rfl, hend⟩
    · exact hend
    · exact hend
  obtain ⟨⟨offset, rest⟩, trees⟩ := result
  cases rest with
  | nil => rfl
  | cons c rest =>
      refine Bool.eq_false_iff.2 fun hc => ?_
      have hspaces : Matches grammar .token inlineSpaces ⟨offset, c :: rest⟩
          ⟨⟨offset, c :: rest⟩, []⟩ := by
        have hends := (not_ends_of_isNameChar hc).1
        refine .noMore (.char_none (if_neg ?_))
        simp only [endsRaw, Bool.or_eq_false_iff, decide_eq_false_iff_not] at hends
        simp [hends]
      obtain ⟨unit, hunit⟩ := accepts_unknownUnit_of_isNameChar offset rest hc
      exact (Matches.seq hspaces hunit).not_refused hend

/-- Raw text goes on as long as a name does. -/
theorem atSeam_of_unknownStmt (h : Matches grammar .token (body .unknownStmt) cursor result) :
    AtSeam cursor.rest result.stop.rest := by
  have hsuffix := (h.leads skips_grammar).suffix
  obtain ⟨_, _, hunit, h, hstop⟩ := h.second skips_grammar
  obtain ⟨_, _, hunits, h, hstopUnits⟩ := h.second skips_grammar
  rw [hstop, hstopUnits] at hsuffix ⊢
  cases h with
  | @seq _ _ _ _ units final hmany hlast =>
      cases hlast with
      | absent =>
          have hend := startsInName_of_units hmany
          exact .of_startsInName hsuffix hend
      | present hsemicolon =>
          obtain ⟨last, _, hspaces, htext, hstopText⟩ := hsemicolon.second skips_grammar
          cases htext with
          | text hdrop =>
              obtain ⟨hrest, -⟩ := Cursor.drop?_eq_some_iff.1 hdrop
              have hbefore := (hunit.trans (hunits.trans
                ((hmany.leads skips_grammar).trans hspaces))).suffix
              rw [hrest] at hbefore
              change AtSeam cursor.rest final.stop.rest
              rw [hstopText]
              exact .behind hbefore rfl

/-! ## Expressions that end with a word -/

/-- Rules that may end in the middle of a name. -/
def isOpen : Rule → Bool
  | .groupContent | .keyword | .reserved | .dqChars | .sqChars | .templateChars | .regexBody => true
  | _ => false

/-- Whether an expression ends with a word whenever it ends with a name. -/
def seals : Peg.Expr Rule → Bool
  | .text characters => !endsInName characters
  | .char _ => false
  | .endOfText | .unless _ => true
  | .rule r => !isOpen r
  | .seq e f => seals f && (!f.mayBeEmpty mayBeEmpty || seals e)
  | .alt e f => seals e && seals f
  | .optional e | .many e => seals e

theorem seals_body (rule : Rule) (hopen : isOpen rule = false) (hword : isWordRule rule = false)
    (hraw : rule ≠ .unknownStmt) : seals (body rule) = true := by
  cases rule <;> first | contradiction | decide

theorem kind_of_isWordRule {r : Rule} (h : isWordRule r = true) : kind r = .token := by
  cases r <;> first | contradiction | rfl

/-- What is read in two steps, perhaps with layout between, ends like the last step that
reads something. -/
theorem AtSeam.steps {text : List Char} {first stop : Cursor} (hsuffix : first.rest <:+ text)
    (hsecond : (grammar.skip mode first).Leads stop)
    (h : stop = grammar.skip mode first → AtSeam text first.rest)
    (hrest : AtSeam (grammar.skip mode first).rest stop.rest) : AtSeam text stop.rest := by
  by_cases hstop : stop = grammar.skip mode first
  · have hskipped := (h hstop).skip mode
    rwa [← hstop] at hskipped
  · have hplace := (skips_grammar.skip mode first).suffix.trans hsuffix
    refine hrest.of_read hplace fun heq => hstop ?_
    exact hsecond.eq_of_rest_eq heq.symm

/-- **What an expression reads ends with a word, if it ends with a name**, for all expressions of
which this is said. -/
theorem atSeam_of_seals {e : Peg.Expr Rule} (h : Matches grammar mode e cursor result)
    (hseals : seals e = true) : AtSeam cursor.rest result.stop.rest := by
  induction h with
  | @text mode characters cursor stop h =>
      obtain ⟨hrest, -⟩ := Cursor.drop?_eq_some_iff.1 h
      exact ⟨characters, hrest, .inl (by simpa [seals] using hseals)⟩
  | char => contradiction
  | endOfText | absent | noMore | «unless» => exact .refl _
  | @rule mode r cursor result h ih =>
      rw [Grammar.record_stop]
      by_cases hword : isWordRule r = true
      · have hsuffix := (h.leads skips_grammar).suffix
        change Matches grammar ((kind r).modeIn mode) (body r) cursor result at h
        rw [kind_of_isWordRule hword] at h
        exact .of_startsInName hsuffix (startsInName_of_isWordRule hword h)
      · by_cases hraw : r = .unknownStmt
        · subst hraw
          exact atSeam_of_unknownStmt h
        · exact ih (seals_body r (by simpa [seals] using hseals) (Bool.eq_false_iff.2 hword) hraw)
  | @seq mode e f cursor first second h hrest ih ihrest =>
      obtain ⟨hf, he⟩ := Bool.and_eq_true_iff.1 hseals
      have hread := hrest.leads skips_grammar
      change AtSeam cursor.rest second.stop.rest
      refine .steps (h.leads skips_grammar).suffix hread (fun hstop => ih ?_) (ihrest hf)
      have hempty : f.mayBeEmpty mayBeEmpty = true :=
        hrest.mayBeEmpty founded (congrArg Cursor.offset hstop)
      exact (Bool.or_eq_true_iff.1 he).resolve_left (by simpa using hempty)
  | altFirst f h ih => exact ih (Bool.and_eq_true_iff.1 hseals).1
  | altSecond _ h ih => exact ih (Bool.and_eq_true_iff.1 hseals).2
  | present h ih => exact ih hseals
  | last h _ ih => exact ih hseals
  | @more mode e cursor first second rest h hnext hrest ih _ ihrest =>
      have hread := hrest.leads skips_grammar
      change AtSeam cursor.rest rest.stop.rest
      exact .steps (h.leads skips_grammar).suffix hread (fun _ => ih hseals) (ihrest hseals)

end EventLoop.Script
