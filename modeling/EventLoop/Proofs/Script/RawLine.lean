import EventLoop.Proofs.Peg.Record
import EventLoop.Proofs.Script.Names

/-!
# Lines of raw text

A statement that no other rule accepts is kept as raw text.  Where such text
stands is told by a machine that reads it from left to right
(`Nesting.rawStep`): it goes by brackets and quotes, a backtick is a quote that
reaches over line ends, and outside of all of them the text stays on its line.
A text is a `RawLine` if it ends where it started.

The rule for raw text reads such lines (`isRawText_of_derived`).  At their end
stands at most one semicolon, because what stands before it is a group, a quoted
text or a character that is no semicolon (`ReadsRaw`).
-/

namespace EventLoop.Script

open Peg

/-! ## Raw lines -/

/-- The nesting behind a character of raw text. -/
def Nesting.rawStep : Nesting → Char → Nesting
  | .code closers, c =>
    if c = '\x60' then .quoted c closers
    else if closers = [] ∧ isLineEnd c = true then .broken
    else (Nesting.code closers).step c
  | .quoted quote closers, c =>
    if quote = '\x60' ∧ isLineEnd c = true then .quoted quote closers
    else (Nesting.quoted quote closers).step c
  | nesting, c => nesting.step c

/-- The brackets and the quotes of a text balance, and no line ends outside of
them. -/
def RawLine (text : List Char) : Prop :=
  text.foldl Nesting.rawStep (.code []) = .code []

instance (text : List Char) : Decidable (RawLine text) :=
  inferInstanceAs (Decidable (_ = _))

/-- A group and a template reach over line ends. -/
example : RawLine "a (b\n) `\n`".toList ∧ ¬ RawLine "a\nb".toList ∧ ¬ RawLine "a (')'".toList := by
  decide

/-- A text without the semicolon at its end. -/
def withoutSemicolon (text : List Char) : List Char :=
  if text.getLast? = some ';' then text.dropLast else text

/-- A raw statement stands for a raw line, of which it leaves out one semicolon at the end and the
blanks before it. -/
def IsRawText (text : List Char) : Prop :=
  RawLine text ∧ rawText text = Text.trimEnd (withoutSemicolon text)

/-! ## Reading on -/

variable {place middle stop : Cursor} {result : Match Rule} {nesting next last : Nesting}
  {closers : List Char}

/-- Between two places stands a text that leads from one nesting to another. -/
def Passes (nesting next : Nesting) (place stop : Cursor) : Prop :=
  ∃ read, place.drop? read = some stop ∧ read.foldl Nesting.rawStep nesting = next

namespace Passes

theorem refl (nesting : Nesting) (place : Cursor) : Passes nesting nesting place place :=
  ⟨[], rfl, rfl⟩

theorem trans (h : Passes nesting next place middle) (hrest : Passes next last middle stop) :
    Passes nesting last place stop := by
  obtain ⟨read, hread, rfl⟩ := h
  obtain ⟨others, hothers, rfl⟩ := hrest
  refine ⟨read ++ others, ?_, List.foldl_append⟩
  rw [Cursor.drop?_append, hread]
  exact hothers

/-- A text is read that leads from one nesting to another. -/
theorem of_text {characters : List Char}
    (h : Matches grammar .token (.text characters) place result)
    (hsteps : characters.foldl Nesting.rawStep nesting = next) :
    Passes nesting next place result.stop :=
  ⟨characters, h.drop?_eq, hsteps⟩

end Passes

/-- What is read by a class of characters. -/
theorem exists_char {mode : Mode} {accepts : Char → Bool}
    (h : Matches grammar mode (.char accepts) place result) :
    ∃ c, accepts c = true ∧ place.drop? [c] = some result.stop := by
  cases h with
  | @char _ _ place stop h =>
      obtain ⟨offset, rest⟩ := place
      cases rest with
      | nil => contradiction
      | cons c rest =>
          obtain ⟨haccepts, hstop⟩ := Option.ite_none_right_eq_some.1 h
          exact ⟨c, haccepts, (if_pos rfl).trans hstop⟩

/-- Characters of a class that do not change the nesting. -/
theorem passes_char {accepts : Char → Bool}
    (h : Matches grammar .token (.char accepts) place result)
    (hstep : ∀ c, accepts c = true → nesting.rawStep c = nesting) :
    Passes nesting nesting place result.stop := by
  obtain ⟨c, hc, hdrop⟩ := exists_char h
  exact ⟨[c], hdrop, hstep c hc⟩

/-- What relates the ends of each round of a repetition relates the ends of them all. -/
theorem related_many (related : Cursor → Cursor → Prop)
    (htrans : ∀ {first second third : Cursor}, related first second → related second third →
      related first third)
    {e : Peg.Expr Rule} (h : Matches grammar .token (.many e) place result)
    (he : ∀ start round, start.rest.length ≤ place.rest.length →
      Matches grammar .token e start round → round.stop.Leads result.stop →
      related start round.stop) :
    result.stop = place ∨ related place result.stop := by
  generalize hmode : Mode.token = mode at h
  generalize hmany : Expr.many e = repetition at h
  induction h with
  | noMore => exact .inl rfl
  | last h _ =>
      obtain rfl := Expr.many.inj hmany
      subst hmode
      exact .inr (he _ _ (Nat.le_refl _) h (.refl _))
  | @more mode e place first second rest h _ hrest _ _ ih =>
      obtain rfl := Expr.many.inj hmany
      subst hmode
      have hbehind : Matches grammar .token (.many e) first.stop rest := hrest
      have hleads : first.stop.Leads rest.stop := hbehind.leads skips_grammar
      have hfirst := he _ _ (Nat.le_refl _) h hleads
      have hshorter := (h.leads skips_grammar).length_le
      rcases ih (fun start round hle hround hleads =>
        he start round (Nat.le_trans hle hshorter) hround hleads) rfl rfl with hend | hothers
      · have hstop : rest.stop = first.stop := hend
        rw [← hstop] at hfirst
        exact .inr hfirst
      · exact .inr (htrans hfirst hothers)
  | _ => contradiction

/-- A repetition keeps what each of its rounds keeps. -/
theorem passes_many {e : Peg.Expr Rule} (h : Matches grammar .token (.many e) place result)
    (he : ∀ start round, start.rest.length ≤ place.rest.length →
      Matches grammar .token e start round → round.stop.Leads result.stop →
      Passes nesting nesting start round.stop) :
    Passes nesting nesting place result.stop := by
  rcases related_many (Passes nesting nesting) Passes.trans h he with hend | hpasses
  · rw [hend]
    exact .refl nesting place
  · exact hpasses

theorem rawStep_quote {quote : Char} (h : quote ∈ ['\x22', '\x27', '\x60'])
    (closers : List Char) : (Nesting.code closers).rawStep quote = .quoted quote closers := by
  simp only [List.mem_cons, List.not_mem_nil, or_false] at h
  rcases h with rfl | rfl | rfl <;> simp [Nesting.rawStep, Nesting.step, isLineEnd]

theorem rawStep_opener {opener closer : Char} (h : closerOf? opener = some closer)
    (closers : List Char) :
    (Nesting.code closers).rawStep opener = .code (closer :: closers) := by
  rcases closerOf?_cases h with ⟨rfl, rfl⟩ | ⟨rfl, rfl⟩ | ⟨rfl, rfl⟩ <;>
    simp [Nesting.rawStep, Nesting.step, isLineEnd]

/-- Something between two texts is read between them. -/
theorem exists_between {opener closer : List Char} {e : Peg.Expr Rule}
    (h : Matches grammar .token (.seq (.text opener) (.seq e (.text closer))) place result) :
    ∃ start inner, place.drop? opener = some start ∧ Matches grammar .token e start inner ∧
      inner.stop.drop? closer = some result.stop := by
  obtain ⟨first, second, hopen, hsecond, rfl⟩ := h.of_seq
  obtain ⟨inner, last, hinner, hclose, rfl⟩ := hsecond.of_seq
  exact ⟨_, inner, hopen.drop?_eq, hinner, hclose.drop?_eq⟩

/-- Raw text is read between two places: it leads back to where it starts, and it does not end with
a semicolon. -/
def ReadsRaw (closers : List Char) (place stop : Cursor) : Prop :=
  ∃ read last, place.drop? (read ++ [last]) = some stop ∧ last ≠ ';' ∧
    (read ++ [last]).foldl Nesting.rawStep (.code closers) = .code closers

theorem ReadsRaw.passes (h : ReadsRaw closers place stop) :
    Passes (.code closers) (.code closers) place stop := by
  obtain ⟨read, last, hread, -, hsteps⟩ := h
  exact ⟨_, hread, hsteps⟩

theorem ReadsRaw.trans (h : ReadsRaw closers place middle) (hrest : ReadsRaw closers middle stop) :
    ReadsRaw closers place stop := by
  obtain ⟨read, hread, hsteps⟩ := h.passes
  obtain ⟨others, last, hothers, hlast, hothersSteps⟩ := hrest
  refine ⟨read ++ others, last, ?_, hlast, ?_⟩
  · rw [List.append_assoc, Cursor.drop?_append, hread]
    exact hothers
  · rw [List.append_assoc, List.foldl_append, hsteps, hothersSteps]

/-- Text between two characters that enter a nesting and leave it is raw text. -/
theorem readsRaw_between {opener closer : Char} {start inner : Cursor}
    (hopen : place.drop? [opener] = some start) (hclose : inner.drop? [closer] = some stop)
    (hlast : closer ≠ ';') (hinner : Passes nesting nesting start inner)
    (henter : (Nesting.code closers).rawStep opener = nesting)
    (hleave : nesting.rawStep closer = .code closers) : ReadsRaw closers place stop := by
  obtain ⟨read, hread, hsteps⟩ := hinner
  refine ⟨opener :: read, closer, ?_, hlast, ?_⟩
  · change place.drop? ([opener] ++ (read ++ [closer])) = some stop
    rw [Cursor.drop?_append, hopen, Option.bind_some, Cursor.drop?_append, hread]
    exact hclose
  · simp only [List.foldl_append, List.foldl_cons, List.foldl_nil, henter, hsteps, hleave]

/-! ## Quoted texts -/

/-- A backslash and the character behind it stay between quotes. -/
theorem passes_escapePair {quote : Char} (hquote : quote ≠ '\\')
    (h : Matches grammar .token escapePair place result) :
    Passes (.quoted quote closers) (.quoted quote closers) place result.stop := by
  obtain ⟨first, second, hbackslash, hchar, rfl⟩ := h.of_seq
  have hescaped : Passes (.quoted quote closers) (.escaped quote closers) place first.stop := by
    refine .of_text hbackslash ?_
    change (Nesting.quoted quote closers).rawStep '\\' = _
    simp [Nesting.rawStep, Nesting.step, Ne.symm hquote, isLineEnd]
  obtain ⟨c, -, hdrop⟩ := exists_char hchar
  exact hescaped.trans ⟨[c], hdrop, rfl⟩

/-- The characters between two quotes that end a line at most behind a backslash. -/
theorem passes_stringChars {quote : Char} (hquote : quote ≠ '\\') (hbacktick : quote ≠ '\x60')
    (h : Matches grammar .token (stringChars quote) place result) :
    Passes (.quoted quote closers) (.quoted quote closers) place result.stop := by
  refine passes_many h fun start round _ hround _ => ?_
  cases hround with
  | altFirst _ hchar =>
      refine passes_char hchar fun c hc => ?_
      simp only [Bool.not_eq_true', Bool.or_eq_false_iff, decide_eq_false_iff_not] at hc
      obtain ⟨⟨hend, hescape⟩, hline⟩ := hc
      simp [Nesting.rawStep, Nesting.step, hbacktick, hend, hescape, hline]
  | altSecond _ hpair => exact passes_escapePair hquote hpair

/-- The characters of a template up to a character behind them. -/
theorem passes_template
    (h : Matches grammar .token (.many (oneOf [escapePair, charBut (· = '\x60')])) place result)
    (hbehind : result.stop.rest ≠ []) :
    Passes (.quoted '\x60' closers) (.quoted '\x60' closers) place result.stop := by
  refine passes_many h fun start round _ hround hleads => ?_
  cases hround with
  | altFirst _ hpair => exact passes_escapePair (by decide) hpair
  | altSecond hpair hchar =>
      obtain ⟨c, hc, hdrop⟩ := exists_char hchar
      -- a backslash takes a character along, unless none is behind it
      have hescape : c ≠ '\\' := by
        rintro rfl
        obtain ⟨offset, rest, rfl, hstop⟩ := Cursor.drop?_cons_eq_some hdrop
        rw [← Option.some.inj hstop] at hleads
        cases rest with
        | nil =>
            rw [hleads.eq_of_end] at hbehind
            exact hbehind rfl
        | cons d rest =>
            have hmatch : Matches grammar .token escapePair ⟨offset, '\\' :: d :: rest⟩ _ :=
              .seq (.text rfl) (.char rfl)
            exact hmatch.not_refused hpair
      refine ⟨[c], hdrop, ?_⟩
      change (Nesting.quoted '\x60' closers).rawStep c = _
      have hend : c ≠ '\x60' := by simpa using hc
      simp [Nesting.rawStep, Nesting.step, hescape, hend]

/-- A quoted text that stays on its line is raw text. -/
theorem readsRaw_quoted {quote : Char} (hquote : quote = '\x22' ∨ quote = '\x27') {r : Rule}
    (hkind : kind r = .token) (hbody : body r = stringChars quote)
    (h : Matches grammar .token (.seq (.text [quote]) (.seq (.rule r) (.text [quote]))) place
      result) : ReadsRaw closers place result.stop := by
  obtain ⟨start, inner, hopen, hinner, hclose⟩ := exists_between h
  obtain ⟨chars, hchars, rfl⟩ := hinner.of_rule
  rw [Grammar.record_stop] at hclose
  change Matches grammar ((kind r).modeIn .token) (body r) start chars at hchars
  rw [hkind, hbody] at hchars
  have hnone : quote ≠ '\\' ∧ quote ≠ '\x60' ∧ quote ≠ ';' ∧ quote ∈ ['\x22', '\x27', '\x60'] := by
    rcases hquote with rfl | rfl <;> decide
  obtain ⟨hescape, hbacktick, hlast, hmem⟩ := hnone
  refine readsRaw_between hopen hclose hlast (passes_stringChars hescape hbacktick hchars)
    (rawStep_quote hmem closers) ?_
  simp [Nesting.rawStep, Nesting.step, hbacktick]

/-- A quoted text is raw text. -/
theorem readsRaw_quotedText (h : Matches grammar .token quotedText place result) :
    ReadsRaw closers place result.stop := by
  cases h with
  | altFirst _ h => exact readsRaw_quoted (r := .dqChars) (.inl rfl) rfl rfl h
  | altSecond _ h =>
      cases h with
      | altFirst _ h => exact readsRaw_quoted (r := .sqChars) (.inr rfl) rfl rfl h
      | altSecond _ h =>
          obtain ⟨start, inner, hopen, hinner, hclose⟩ := exists_between h
          have hbehind : inner.stop.rest ≠ [] := by
            obtain ⟨offset, rest, hstop, -⟩ := Cursor.drop?_cons_eq_some hclose
            rw [hstop]
            exact List.cons_ne_nil _ _
          exact readsRaw_between hopen hclose (by decide) (passes_template hinner hbehind)
            (rawStep_quote (by decide) closers) rfl

/-! ## Groups -/

/-- What stands in a group stays in it, if the groups in it do. -/
theorem passes_groupContent {closer : Char}
    (hgroups : ∀ group, Matches grammar .token (.rule .balancedGroup) place group →
      ReadsRaw (closer :: closers) place group.stop)
    (h : Matches grammar .token (.rule .groupContent) place result) :
    Passes (.code (closer :: closers)) (.code (closer :: closers)) place result.stop := by
  obtain ⟨inner, hinner, rfl⟩ := h.of_rule
  cases hinner with
  | altFirst _ h => exact (hgroups _ h).passes
  | altSecond _ h =>
      cases h with
      | altFirst _ h => exact (readsRaw_quotedText h).passes
      | altSecond _ h =>
          refine passes_char h fun c hc => ?_
          simp only [isBracket, Bool.not_eq_true', Bool.or_eq_false_iff, decide_eq_false_iff_not]
            at hc
          obtain ⟨⟨⟨⟨⟨⟨⟨⟨hbrace, hbraceEnd⟩, hparen⟩, hparenEnd⟩, hbracket⟩, hbracketEnd⟩, hdouble⟩,
            hsingle⟩, hbacktick⟩ := hc
          simp [Nesting.rawStep, Nesting.step, *]

/-- A bracket, what stands behind it and the bracket that closes it are raw text, if the groups
between them are. -/
theorem readsRaw_bracketed {opener closer : Char} (hopens : closerOf? opener = some closer)
    (hgroups : ∀ start group, start.rest.length < place.rest.length →
      Matches grammar .token (.rule .balancedGroup) start group →
      ReadsRaw (closer :: closers) start group.stop)
    (h : Matches grammar .token
      (.seq (.text [opener]) (.seq (.many (.rule .groupContent)) (.text [closer]))) place result) :
    ReadsRaw closers place result.stop := by
  obtain ⟨start, inner, hopen, hinner, hclose⟩ := exists_between h
  have hshorter : start.rest.length < place.rest.length := by
    obtain ⟨offset, rest, rfl, hstart⟩ := Cursor.drop?_cons_eq_some hopen
    obtain rfl := Option.some.inj hstart
    exact Nat.lt_succ_self _
  have hpasses := passes_many hinner fun round content hle hcontent _ =>
    passes_groupContent (fun group => hgroups round group (Nat.lt_of_le_of_lt hle hshorter))
      hcontent
  refine readsRaw_between hopen hclose ?_ hpasses (rawStep_opener hopens closers) ?_
  · rcases closerOf?_cases hopens with ⟨-, rfl⟩ | ⟨-, rfl⟩ | ⟨-, rfl⟩ <;> decide
  · rcases closerOf?_cases hopens with ⟨-, rfl⟩ | ⟨-, rfl⟩ | ⟨-, rfl⟩ <;> rfl

/-- A group is raw text, since the groups in it are, which are shorter. -/
theorem readsRaw_group (place : Cursor) (result : Match Rule) (closers : List Char)
    (h : Matches grammar .token (.rule .balancedGroup) place result) :
    ReadsRaw closers place result.stop := by
  have hgroups (closer : Char) (start : Cursor) (group : Match Rule)
      (hshorter : start.rest.length < place.rest.length)
      (hgroup : Matches grammar .token (.rule .balancedGroup) start group) :
      ReadsRaw (closer :: closers) start group.stop :=
    readsRaw_group start group (closer :: closers) hgroup
  obtain ⟨inner, hinner, rfl⟩ := h.of_rule
  cases hinner with
  | altFirst _ h => exact readsRaw_bracketed rfl (hgroups '\x7d') h
  | altSecond _ h =>
      cases h with
      | altFirst _ h => exact readsRaw_bracketed rfl (hgroups ')') h
      | altSecond _ h => exact readsRaw_bracketed rfl (hgroups ']') h
termination_by place.rest.length

/-! ## Units -/

/-- A unit of raw text is raw text outside of brackets. -/
theorem readsRaw_unit (h : Matches grammar .token unknownUnit place result) :
    ReadsRaw [] place result.stop := by
  cases h with
  | altFirst _ h => exact readsRaw_group place result [] h
  | altSecond _ h =>
      cases h with
      | altFirst _ h => exact readsRaw_quotedText h
      | altSecond _ h =>
          obtain ⟨first, second, hunless, hchar, rfl⟩ := h.of_seq
          obtain rfl := hunless.of_unless
          obtain ⟨c, hc, hdrop⟩ := exists_char hchar
          simp only [isBracket, Bool.not_eq_true', Bool.or_eq_false_iff, decide_eq_false_iff_not]
            at hc
          obtain ⟨⟨⟨⟨hline, -⟩, -⟩, hlast⟩, ⟨⟨⟨⟨⟨⟨⟨hbrace, hbraceEnd⟩, hparen⟩, hparenEnd⟩,
            hbracket⟩, hbracketEnd⟩, hdouble⟩, hsingle⟩, hbacktick⟩ := hc
          refine ⟨[], c, hdrop, hlast, ?_⟩
          simp [Nesting.rawStep, Nesting.step, *]

/-- Spaces go on with raw text. -/
theorem ReadsRaw.spaces (h : ReadsRaw [] place middle)
    (hspaces : Matches grammar .token inlineSpaces middle result) :
    ReadsRaw [] place result.stop := by
  have hmany := related_many (ReadsRaw []) ReadsRaw.trans hspaces fun start round _ hround _ => by
    obtain ⟨c, hc, hdrop⟩ := exists_char hround
    have hspace : c = ' ' ∨ c = '\t' := by simpa using hc
    refine ⟨[], c, hdrop, ?_, ?_⟩
    · rcases hspace with rfl | rfl <;> decide
    · rcases hspace with rfl | rfl <;> rfl
  rcases hmany with hend | hreads
  · rwa [hend]
  · exact h.trans hreads

/-- Units with spaces between them are raw text. -/
theorem readsRaw_units {first : Match Rule}
    (hfirst : Matches grammar .token unknownUnit place first)
    (hmany : Matches grammar .token (.many (.seq inlineSpaces unknownUnit)) first.stop result) :
    ReadsRaw [] place result.stop := by
  -- spaces stand before the units, so that what is read from unit to unit goes on with them
  let related (start stop : Cursor) : Prop :=
    ∀ {place : Cursor}, ReadsRaw [] place start → ReadsRaw [] place stop
  have htrans {first second third : Cursor} (h : related first second)
      (hrest : related second third) : related first third := fun hreads => hrest (h hreads)
  have hrounds := related_many related htrans hmany fun start round _ hround _ => by
    obtain ⟨spaces, unit, hspaces, hunit, rfl⟩ := hround.of_seq
    have hreadsUnit : ReadsRaw [] spaces.stop unit.stop := readsRaw_unit hunit
    intro place hreads
    exact (hreads.spaces hspaces).trans hreadsUnit
  rcases hrounds with hend | hreads
  · rw [hend]
    exact readsRaw_unit hfirst
  · exact hreads (readsRaw_unit hfirst)

/-! ## The end of raw text -/

/-- Spaces and tabs. -/
def isInlineSpace (c : Char) : Bool :=
  c = ' ' || c = '\t'

/-- Raw text goes no further before a text: behind spaces and tabs stands the end of the text or of
the line, a comment, a bracket or a quote. -/
def stopsRaw (after : List Char) : Bool :=
  match after.dropWhile isInlineSpace with
  | '/' :: '/' :: _ | '/' :: '*' :: _ | [] => true
  | c :: _ => isLineEnd c || isBracket c

/-- Raw text is read to the next semicolon, or as far as it goes. -/
def IsWholeRaw (text after : List Char) : Prop :=
  text.getLast? = some ';' ∨ stopsRaw after = true

/-- Spaces and tabs are read to their end. -/
theorem rest_of_inlineSpaces (h : Matches grammar .token inlineSpaces place result) :
    result.stop.rest = place.rest.dropWhile isInlineSpace := by
  let related (start stop : Cursor) : Prop :=
    ∃ read, start.rest = read ++ stop.rest ∧ ∀ c ∈ read, isInlineSpace c = true
  have hread : related place result.stop := by
    have hrounds := related_many related ?_ h fun start round _ hround _ => ?_
    · rcases hrounds with hend | hread
      · exact ⟨[], by rw [hend]; rfl, by simp⟩
      · exact hread
    · rintro first second third ⟨read, hfirst, hread⟩ ⟨others, hsecond, hothers⟩
      refine ⟨read ++ others, ?_, List.forall_mem_append.2 ⟨hread, hothers⟩⟩
      rw [hfirst, hsecond, List.append_assoc]
    · obtain ⟨c, hc, hdrop⟩ := exists_char hround
      exact ⟨[c], (Cursor.drop?_eq_some_iff.1 hdrop).1, List.forall_mem_singleton.2 hc⟩
  have hend : Derives grammar .token (.char isInlineSpace) result.stop none := by
    rcases h.many_end with hend | ⟨rfl, hend⟩
    · exact hend
    · exact hend
  obtain ⟨read, hrest, hread⟩ := hread
  obtain ⟨⟨offset, rest⟩, trees⟩ := result
  rw [hrest, List.dropWhile_append_of_pos hread]
  cases rest with
  | nil => rfl
  | cons c rest =>
      have hc : ¬ isInlineSpace c = true := fun hc =>
        Option.some_ne_none _ ((if_pos hc).symm.trans hend.of_char_none)
      rw [List.dropWhile_cons_of_neg hc]

/-- A comment is started by one of two texts. -/
theorem exists_comment (h : Matches grammar .token (oneOf ["//", "/*"]) place result) :
    ∃ rest, place.rest = '/' :: '/' :: rest ∨ place.rest = '/' :: '*' :: rest := by
  cases h with
  | altFirst _ h => exact ⟨_, .inl (Cursor.drop?_eq_some_iff.1 h.drop?_eq).1⟩
  | altSecond _ h => exact ⟨_, .inr (Cursor.drop?_eq_some_iff.1 h.drop?_eq).1⟩

/-- Raw text stops where neither a unit of it nor a semicolon follows. -/
theorem stopsRaw_of_refused (hspaces : Matches grammar .token inlineSpaces place result)
    (hunit : Derives grammar .token unknownUnit result.stop none)
    (hsemicolon : Derives grammar .token ";" result.stop none) : stopsRaw place.rest = true := by
  have hrest := rest_of_inlineSpaces hspaces
  have hchars := hunit.of_alt_none.2.of_alt_none.2
  obtain ⟨⟨offset, rest⟩, trees⟩ := result
  dsimp only at hrest hchars hsemicolon
  unfold stopsRaw
  split
  · rfl
  · rfl
  · rfl
  · rename_i c others hline hblock hhead
    rw [hhead] at hrest
    obtain rfl : rest = c :: others := hrest
    have hsemicolon : c ≠ ';' := by
      rintro rfl
      exact Option.some_ne_none _ hsemicolon.of_text_none
    rcases hchars.of_seq_none with hcomment | ⟨first, hfirst, hchar⟩
    · obtain ⟨comment, hcomment⟩ := hcomment.of_unless_none
      obtain ⟨behind, hcomment | hcomment⟩ := exists_comment hcomment
      · obtain ⟨rfl, rfl⟩ := List.cons.inj hcomment
        exact (hline _ rfl rfl).elim
      · obtain ⟨rfl, rfl⟩ := List.cons.inj hcomment
        exact (hblock _ rfl rfl).elim
    · obtain rfl := hfirst.of_unless
      have hspace : isInlineSpace c = false := by
        have hnot := List.head?_dropWhile_not isInlineSpace place.rest
        rwa [hhead] at hnot
      refine Decidable.byContradiction fun hgoesOn =>
        Option.some_ne_none _ ((if_pos ?_).symm.trans hchar.of_char_none)
      simp only [isInlineSpace, Bool.not_eq_true, Bool.or_eq_false_iff, decide_eq_false_iff_not]
        at hspace hgoesOn
      simp [hspace, hgoesOn, hsemicolon]

/-! ## Statements -/

theorem rawText_of_last {last : Char} (hlast : last ≠ ';') (read : List Char) :
    rawText (read ++ [last]) = Text.trimEnd (read ++ [last]) := by
  simp [rawText, hlast]

/-- One semicolon at the end is left out. -/
theorem rawText_semicolon {last : Char} (hlast : last ≠ ';') (read : List Char) :
    rawText (read ++ [last] ++ [';']) = Text.trimEnd (read ++ [last]) := by
  simp [rawText, hlast]

theorem RawLine.semicolon {read : List Char} (h : RawLine read) : RawLine (read ++ [';']) := by
  rw [RawLine, List.foldl_append, h]
  rfl

/-- A raw statement stands for raw text, and for as much of it as there is. -/
theorem isRawText_of_matches (h : Matches grammar .token (body .unknownStmt) place result) :
    IsRawText (place.textTo result.stop) ∧
      IsWholeRaw (place.textTo result.stop) result.stop.rest := by
  obtain ⟨start, rest, hunless, hrest, rfl⟩ := h.of_seq
  obtain ⟨first, others, hfirst, hothers, rfl⟩ := hrest.of_seq
  obtain ⟨units, last, hunits, hlast, rfl⟩ := hothers.of_seq
  obtain rfl := hunless.of_unless
  have hreads : ReadsRaw [] place units.stop := readsRaw_units hfirst hunits
  have hend : Derives grammar .token (.seq inlineSpaces unknownUnit) units.stop none := by
    rcases hunits.many_end with hend | ⟨rfl, hend⟩
    · exact hend
    · exact hend
  cases hlast with
  | absent hnone =>
      obtain ⟨read, c, hread, hc, hsteps⟩ := hreads
      obtain ⟨hrest, hoffset⟩ := Cursor.drop?_eq_some_iff.1 hread
      have htext : place.textTo units.stop = read ++ [c] := Cursor.textTo_eq hrest hoffset
      obtain ⟨spaces, hspaces, hunit⟩ := hend.of_seq_none.resolve_left Derives.not_many
      obtain ⟨others, hothers, hsemicolon⟩ := hnone.of_seq_none.resolve_left Derives.not_many
      rw [hothers.unique hspaces] at hsemicolon
      refine ⟨?_, .inr (stopsRaw_of_refused hspaces hunit hsemicolon)⟩
      change IsRawText (place.textTo units.stop)
      rw [htext]
      refine ⟨hsteps, ?_⟩
      rw [rawText_of_last hc, withoutSemicolon, if_neg (by simpa using hc)]
  | present hsemicolon =>
      obtain ⟨spaces, semicolon, hspaces, hlast, rfl⟩ := hsemicolon.of_seq
      obtain ⟨read, c, hread, hc, hsteps⟩ := hreads.spaces hspaces
      have hdrop : place.drop? (read ++ [c] ++ [';']) = some semicolon.stop := by
        rw [Cursor.drop?_append, hread]
        exact hlast.drop?_eq
      obtain ⟨hrest, hoffset⟩ := Cursor.drop?_eq_some_iff.1 hdrop
      have htext : place.textTo semicolon.stop = read ++ [c] ++ [';'] :=
        Cursor.textTo_eq hrest hoffset
      change IsRawText (place.textTo semicolon.stop) ∧ IsWholeRaw (place.textTo semicolon.stop) _
      rw [htext]
      refine ⟨⟨RawLine.semicolon hsteps, ?_⟩, .inl List.getLast?_concat⟩
      rw [rawText_semicolon hc, withoutSemicolon, if_pos List.getLast?_concat,
        List.dropLast_concat]

/-- The tree of a raw statement stands for raw text. -/
theorem isRawText_of_derived {start stop : Cursor} {children : List (Peg.Tree Rule)}
    (h : Tree.Derived grammar (.node .unknownStmt start stop children)) :
    IsRawText (start.textTo stop) ∧ IsWholeRaw (start.textTo stop) stop.rest := by
  cases h with
  | node _ _ _ hbody _ => exact isRawText_of_matches hbody

end EventLoop.Script
