import EventLoop.Proofs.Script.Nesting

/-!
# Raw text

Raw text is accepted wherever its brackets and quotes balance: a quoted text
(`accepts_quotedText`), a balanced group (`accepts_balancedGroup`), and so any unit
that does not end the text around it (`accepts_unknownUnit`).

What a repetition reads is not followed up round by round.  It ends where no further
round matches, and the nesting there is the one it started in, which leaves nothing
but the closing bracket or quote.
-/

namespace EventLoop.Script

open Peg

/-- An expression matches at a place. -/
def Accepts (mode : Mode) (e : Peg.Expr Rule) (cursor : Cursor) : Prop :=
  ∃ result, Matches grammar mode e cursor result

namespace Accepts

variable {mode : Mode} {e f : Peg.Expr Rule} {cursor : Cursor}

theorem of_not_refused (hmoves : e.moves mayBeEmpty = true)
    (h : ¬ Derives grammar mode e cursor none) : Accepts mode e cursor :=
  (matches_or_refused mode hmoves cursor).resolve_right h

theorem altFirst (h : Accepts mode e cursor) (f : Peg.Expr Rule) : Accepts mode (.alt e f) cursor :=
  h.imp fun _ => .altFirst f

theorem altSecond (h : Accepts mode f cursor) (hmoves : e.moves mayBeEmpty = true) :
    Accepts mode (.alt e f) cursor := by
  rcases matches_or_refused mode hmoves cursor with hfirst | hrefused
  · exact altFirst hfirst f
  · exact h.imp fun _ => .altSecond hrefused

theorem many (hmoves : (Expr.many e).moves mayBeEmpty = true) : Accepts mode (.many e) cursor :=
  of_not_refused hmoves Derives.not_many

theorem optional (hmoves : e.moves mayBeEmpty = true) : Accepts mode (.optional e) cursor :=
  of_not_refused hmoves nofun

theorem rule {r : Rule} (h : Accepts ((kind r).modeIn mode) (body r) cursor) :
    Accepts mode (.rule r) cursor := by
  obtain ⟨result, hresult⟩ := h
  exact ⟨_, .rule hresult⟩

theorem char {accepts : Char → Bool} {offset : Nat} {c : Char} {rest : List Char}
    (h : accepts c = true) : Accepts mode (.char accepts) ⟨offset, c :: rest⟩ :=
  ⟨_, .char (if_pos h)⟩

end Accepts

theorem Nesting.step_ne_broken {nesting : Nesting} {c : Char} {rest closers : List Char}
    (h : nesting.steps (c :: rest) = .code closers) : nesting.step c ≠ .broken := by
  intro hbroken
  rw [steps_cons, hbroken, steps_broken] at h
  contradiction

theorem Nesting.Reads.steps_rest {nesting : Nesting} {read rest : List Char}
    (h : nesting.Reads read nesting) : nesting.steps (read ++ rest) = nesting.steps rest := by
  rw [steps_append, h.steps]

/-! ## Quoted texts -/

/-- The characters of a quoted text end at the quote. -/
theorem head_of_stringChars {quote : Char} {cursor : Cursor} {result : Match Rule}
    (h : Matches grammar .token (stringChars quote) cursor result) {closers : List Char}
    (hsteps : (Nesting.quoted quote closers).steps result.stop.rest = .code []) :
    ∃ rest, result.stop.rest = quote :: rest := by
  have hend : Derives grammar .token
      (oneOf [charBut fun c => c = quote || c = '\\' || isLineEnd c, escapePair]) result.stop none := by
    rcases h.many_end with hend | ⟨rfl, hend⟩
    · exact hend
    · exact hend
  obtain ⟨⟨offset, rest⟩, trees⟩ := result
  dsimp only at hsteps hend ⊢
  cases rest with
  | nil => contradiction
  | cons c rest =>
      by_cases hquote : c = quote
      · exact ⟨rest, by rw [hquote]⟩
      exfalso
      by_cases hescape : c = '\\'
      · subst hescape
        cases rest with
        | nil => simp [Nesting.step, hquote] at hsteps
        | cons d rest =>
            have hpair : Accepts .token escapePair ⟨offset, '\\' :: d :: rest⟩ :=
              ⟨_, .seq (.text rfl) (.char rfl)⟩
            obtain ⟨result, hresult⟩ := hpair.altSecond (e := charBut _) rfl
            exact hresult.not_refused hend
      · by_cases hline : isLineEnd c = true
        · simp [Nesting.step, hquote, hescape, hline] at hsteps
        · have hchar : Accepts .token (charBut fun c => c = quote || c = '\\' || isLineEnd c)
              ⟨offset, c :: rest⟩ := .char (by simp [hquote, hescape, hline])
          obtain ⟨result, hresult⟩ := hchar.altFirst escapePair
          exact hresult.not_refused hend

/-- The characters between two quotes match, and so do the quotes. -/
theorem accepts_quoted {quote : Char} {r : Rule} (hbody : body r = stringChars quote)
    (hkind : kind r = .token) (hentry : entry r = some (.quoted quote [])) {offset : Nat}
    {rest closers : List Char} (hplain : Transparent rest)
    (hsteps : (Nesting.quoted quote closers).steps rest = .code []) :
    Accepts .token (.seq (.text [quote]) (.seq (.rule r) (.text [quote]))) ⟨offset, quote :: rest⟩ := by
  let start : Cursor := ⟨offset + quote.utf8Size, rest⟩
  have hopen : Matches grammar .token (.text [quote]) ⟨offset, quote :: rest⟩ ⟨start, []⟩ :=
    .text (by simp [Cursor.drop?, start])
  obtain ⟨inner, hinner⟩ : Accepts .token (stringChars quote) start :=
    .many rfl
  have hchars : Matches grammar .token (.rule r) start (grammar.record .token r start inner) := by
    refine .rule ?_
    change Matches grammar ((kind r).modeIn .token) (body r) start inner
    rwa [hkind, hbody]
  obtain ⟨read, hread, hreads⟩ :=
    reads_rule hchars hplain (.quoted quote closers) hentry (.inr rfl)
  rw [Grammar.record_stop] at hread
  change rest = read ++ inner.stop.rest at hread
  rw [hread, hreads.steps_rest] at hsteps
  obtain ⟨behind, hbehind⟩ := head_of_stringChars hinner hsteps
  have hclose : Matches grammar .token (.text [quote]) (grammar.record .token r start inner).stop
      ⟨⟨inner.stop.offset + quote.utf8Size, behind⟩, []⟩ := by
    refine .text ?_
    rw [Grammar.record_stop, Cursor.drop?_eq_some_iff, hbehind]
    exact ⟨rfl, rfl⟩
  exact ⟨_, .seq hopen (.seq hchars hclose)⟩

theorem accepts_quotedText {quote : Char} (hquote : quote = '\x22' ∨ quote = '\x27') (offset : Nat)
    {rest closers : List Char} (hplain : Transparent rest)
    (hsteps : (Nesting.quoted quote closers).steps rest = .code []) :
    Accepts .token quotedText ⟨offset, quote :: rest⟩ := by
  rcases hquote with rfl | rfl
  · exact (accepts_quoted (r := .dqChars) rfl rfl rfl hplain hsteps).altFirst _
  · exact ((accepts_quoted (r := .sqChars) rfl rfl rfl hplain hsteps).altFirst _).altSecond rfl

/-! ## Groups -/

/-- The bracket that closes an opening one. -/
def closerOf? (c : Char) : Option Char :=
  if c = '(' then some ')' else if c = '[' then some ']' else if c = '\x7b' then some '\x7d' else none

theorem closerOf?_cases {c closer : Char} (h : closerOf? c = some closer) :
    (c = '(' ∧ closer = ')') ∨ (c = '[' ∧ closer = ']') ∨ (c = '\x7b' ∧ closer = '\x7d') := by
  unfold closerOf? at h
  split at h
  · exact .inl ⟨‹_›, (Option.some.inj h).symm⟩
  split at h
  · exact .inr (.inl ⟨‹_›, (Option.some.inj h).symm⟩)
  split at h
  · exact .inr (.inr ⟨‹_›, (Option.some.inj h).symm⟩)
  contradiction

theorem step_opener {c closer : Char} (h : closerOf? c = some closer) (closers : List Char) :
    (Nesting.code closers).step c = .code (closer :: closers) := by
  rcases closerOf?_cases h with ⟨rfl, rfl⟩ | ⟨rfl, rfl⟩ | ⟨rfl, rfl⟩ <;> rfl

/-- Every bracket opens, quotes or closes. -/
theorem isBracket_cases {c : Char} (h : isBracket c = true) (hplain : isOpaque c = false) :
    (∃ closer, closerOf? c = some closer) ∨ (c = '\x22' ∨ c = '\x27') ∨
      ∀ closers, (Nesting.code closers).step c ≠ .broken → closers.head? = some c := by
  have hcloses (hc : c = ')' ∨ c = ']' ∨ c = '\x7d') (closers : List Char)
      (hstep : (Nesting.code closers).step c ≠ .broken) : closers.head? = some c := by
    rcases hc with rfl | rfl | rfl <;> simpa [Nesting.step] using hstep
  simp only [isBracket, Bool.or_eq_true, decide_eq_true_eq] at h
  rcases h with (((((((rfl | rfl) | rfl) | rfl) | rfl) | rfl) | rfl) | rfl) | rfl
  · exact .inl ⟨_, rfl⟩
  · exact .inr (.inr (hcloses (.inr (.inr rfl))))
  · exact .inl ⟨_, rfl⟩
  · exact .inr (.inr (hcloses (.inl rfl)))
  · exact .inl ⟨_, rfl⟩
  · exact .inr (.inr (hcloses (.inr (.inl rfl))))
  · exact .inr (.inl (.inl rfl))
  · exact .inr (.inl (.inr rfl))
  · contradiction

/-- The content of a group ends at the closing bracket, if groups are accepted in it. -/
theorem head_of_groupContent {cursor : Cursor} {result : Match Rule}
    (h : Matches grammar .token (.many (.rule .groupContent)) cursor result) {closer : Char}
    {closers : List Char} (hplain : Transparent result.stop.rest)
    (hsteps : (Nesting.code (closer :: closers)).steps result.stop.rest = .code [])
    (hgroups : ∀ c, (closerOf? c).isSome = true → result.stop.rest.head? = some c →
      Accepts .token (.rule .balancedGroup) result.stop) :
    ∃ rest, result.stop.rest = closer :: rest := by
  have hend : Derives grammar .token (.rule .groupContent) result.stop none := by
    rcases h.many_end with hend | ⟨rfl, hend⟩
    · exact hend
    · exact hend
  have hrefused : ¬ Accepts .token (body .groupContent) result.stop := by
    intro haccepts
    obtain ⟨content, hcontent⟩ : Accepts .token (.rule .groupContent) result.stop :=
      .rule haccepts
    exact hcontent.not_refused hend
  clear h hend
  obtain ⟨⟨offset, rest⟩, trees⟩ := result
  cases rest with
  | nil => simp at hsteps
  | cons c rest =>
      obtain ⟨hc, hrest⟩ := List.forall_mem_cons.1 hplain
      by_cases hbracket : isBracket c = true
      · rcases isBracket_cases hbracket hc with ⟨other, hopens⟩ | hquote | hcloses
        · have hgroup := hgroups c (by rw [hopens]; rfl) rfl
          exact absurd (hgroup.altFirst _) hrefused
        · have hsteps : (Nesting.quoted c (closer :: closers)).steps rest = .code [] := by
            rcases hquote with rfl | rfl <;> exact hsteps
          have hquoted := accepts_quotedText hquote offset hrest hsteps
          exact absurd ((hquoted.altFirst _).altSecond rfl) hrefused
        · have hhead := hcloses (closer :: closers) (Nesting.step_ne_broken hsteps)
          exact ⟨rest, by rw [Option.some.inj hhead]⟩
      · have hchar : Accepts .token (charBut isBracket) ⟨offset, c :: rest⟩ :=
          .char (by simp [hbracket])
        exact absurd ((hchar.altSecond rfl).altSecond rfl) hrefused

/-- A group between two brackets. -/
theorem accepts_bracketed (opener closer : Char) (offset : Nat) {rest closers : List Char}
    (hplain : Transparent rest)
    (hsteps : (Nesting.code (closer :: closers)).steps rest = .code [])
    (hgroups : ∀ (place : Cursor) (c : Char) (closers : List Char),
      place.rest.length ≤ rest.length → (closerOf? c).isSome = true →
      place.rest.head? = some c → Transparent place.rest →
      (Nesting.code closers).steps place.rest = .code [] →
      Accepts .token (.rule .balancedGroup) place) :
    Accepts .token (.seq (.text [opener]) (.seq (.many (.rule .groupContent)) (.text [closer])))
      ⟨offset, opener :: rest⟩ := by
  let start : Cursor := ⟨offset + opener.utf8Size, rest⟩
  have hopen : Matches grammar .token (.text [opener]) ⟨offset, opener :: rest⟩ ⟨start, []⟩ :=
    .text (by simp [Cursor.drop?, start])
  obtain ⟨content, hcontent⟩ : Accepts .token (.many (.rule .groupContent)) start :=
    .many rfl
  have hkeeps : keeps .token (.many (.rule .groupContent)) (.code (closer :: closers))
      (fun next => next = .code (closer :: closers)) = true := by
    simp [keeps, Nesting.allows, entry, Nesting.bare]
  obtain ⟨read, next, hread, hreads, hnext⟩ := reads_of_keeps hcontent hplain hkeeps
  obtain rfl := of_decide_eq_true hnext
  change rest = read ++ content.stop.rest at hread
  have hshorter : content.stop.rest.length ≤ rest.length := by
    rw [hread, List.length_append]
    exact Nat.le_add_left _ _
  rw [hread] at hplain
  rw [hread, hreads.steps_rest] at hsteps
  obtain ⟨behind, hbehind⟩ := head_of_groupContent hcontent hplain.of_append.2 hsteps
    fun c hc hhead => hgroups _ c _ hshorter hc hhead hplain.of_append.2 hsteps
  have hclose : Matches grammar .token (.text [closer]) content.stop
      ⟨⟨content.stop.offset + closer.utf8Size, behind⟩, []⟩ :=
    .text (Cursor.drop?_eq_some_iff.2 ⟨hbehind, rfl⟩)
  exact ⟨_, .seq hopen (.seq hcontent hclose)⟩

/-- An opening bracket starts a group, if it is closed in the end. -/
theorem accepts_balancedGroup (length : Nat) :
    ∀ (place : Cursor) (c : Char) (closers : List Char), place.rest.length ≤ length →
      (closerOf? c).isSome = true → place.rest.head? = some c → Transparent place.rest →
      (Nesting.code closers).steps place.rest = .code [] →
      Accepts .token (.rule .balancedGroup) place := by
  induction length with
  | zero =>
      intro place c closers hlength _ hhead
      rw [List.length_eq_zero_iff.1 (Nat.le_zero.1 hlength)] at hhead
      contradiction
  | succ length ih =>
      rintro ⟨offset, rest⟩ c closers hlength hisSome hhead hplain hsteps
      obtain ⟨rest, rfl⟩ := List.head?_eq_some_iff.1 hhead
      obtain ⟨closer, hopens⟩ := Option.isSome_iff_exists.1 hisSome
      rw [Nesting.steps_cons, step_opener hopens] at hsteps
      have hgroup := accepts_bracketed c closer offset (List.forall_mem_cons.1 hplain).2 hsteps
        fun place c closers hle =>
          ih place c closers (Nat.le_trans hle (Nat.le_of_succ_le_succ hlength))
      refine .rule ?_
      rcases closerOf?_cases hopens with ⟨rfl, rfl⟩ | ⟨rfl, rfl⟩ | ⟨rfl, rfl⟩
      · exact (hgroup.altFirst _).altSecond rfl
      · exact (hgroup.altSecond rfl).altSecond rfl
      · exact hgroup.altFirst _

/-! ## Units -/

/-- What ends raw text outside brackets and quotes. -/
def endsRaw (c : Char) : Bool :=
  isLineEnd c || c = ' ' || c = '\t' || c = ';'

/-- A unit is accepted wherever the text goes on outside brackets and quotes. -/
theorem accepts_unknownUnit (offset : Nat) {c : Char} {rest : List Char} (hends : endsRaw c = false)
    (hplain : Transparent (c :: rest))
    (hsteps : (Nesting.code []).steps (c :: rest) = .code [] ∨ isBracket c = false) :
    Accepts .token unknownUnit ⟨offset, c :: rest⟩ := by
  obtain ⟨hc, hrest⟩ := List.forall_mem_cons.1 hplain
  by_cases hbracket : isBracket c = true
  · have hsteps := hsteps.resolve_right (by simp [hbracket])
    rcases isBracket_cases hbracket hc with ⟨closer, hopens⟩ | hquote | hcloses
    · exact (accepts_balancedGroup _ _ c [] (Nat.le_refl _) (by rw [hopens]; rfl) rfl hplain
        hsteps).altFirst _
    · have hsteps : (Nesting.quoted c []).steps rest = .code [] := by
        rcases hquote with rfl | rfl <;> exact hsteps
      exact ((accepts_quotedText hquote offset hrest hsteps).altFirst _).altSecond rfl
    · exact nomatch hcloses [] (Nesting.step_ne_broken hsteps)
  · have hnone : ∀ behind, Cursor.drop? ('/' :: behind) ⟨offset, c :: rest⟩ = none := by
      intro behind
      rw [Cursor.drop?, if_neg]
      rintro rfl
      contradiction
    have hcomment : Derives grammar .token (oneOf ["//", "/*"] : Peg.Expr Rule)
        ⟨offset, c :: rest⟩ none :=
      .altSecond (.text_none (hnone _)) (.text_none (hnone _))
    have hchar : Accepts .token
        (charBut fun c => isLineEnd c || c = ' ' || c = '\t' || c = ';' || isBracket c)
        ⟨offset, c :: rest⟩ :=
      .char (by simpa [endsRaw, hbracket] using hends)
    obtain ⟨result, hresult⟩ := hchar
    have hunit : Accepts .token _ ⟨offset, c :: rest⟩ := ⟨_, .seq (.unless hcomment) hresult⟩
    exact (hunit.altSecond rfl).altSecond rfl

end EventLoop.Script
