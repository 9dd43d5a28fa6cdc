import EventLoop.Proofs.Script.Layout
import EventLoop.Proofs.Script.Words

/-!
# Names and keywords

A name that is no keyword (`IsIdentifier`) is refused by all rules for words and by the rule
for numbers, and a keyword is refused as an identifier, if no keyword before it in the list
of keywords starts like it (`isReserved`).
-/

namespace EventLoop.Script

open Peg

/-- A text is a name. -/
def IsName : List Char → Prop
  | [] => False
  | c :: cs => isNameStart c = true ∧ ∀ d ∈ cs, isNameChar d = true

instance : DecidablePred IsName
  | [] => inferInstanceAs (Decidable False)
  | c :: cs => decidable_of_iff (isNameStart c = true ∧ cs.all isNameChar = true)
      (and_congr_right fun _ => List.all_eq_true)

/-- A name that is no keyword. -/
def IsIdentifier (name : String) : Prop :=
  IsName name.toList ∧ name ∉ keywords

instance : DecidablePred IsIdentifier :=
  fun _ => inferInstanceAs (Decidable (_ ∧ _))

theorem isNameChar_of_isNameStart {c : Char} (h : isNameStart c = true) : isNameChar c = true := by
  simp only [isNameStart, isNameChar, Char.isAlphanum, Bool.or_eq_true] at h ⊢
  rcases h with (h | h) | h <;> simp [h]

theorem isDigit_of_isNameStart {c : Char} (h : isNameStart c = true) : c.isDigit = false := by
  refine Bool.eq_false_iff.2 fun hdigit => ?_
  obtain ⟨-, hnine⟩ := Bool.and_eq_true_iff.1 hdigit
  have hle : c.val.toNat ≤ 57 := UInt32.le_iff_toNat_le.1 (of_decide_eq_true hnine)
  obtain h | hdollar := Bool.or_eq_true_iff.1 h
  · obtain halpha | hunderscore := Bool.or_eq_true_iff.1 h
    · obtain hupper | hlower := Bool.or_eq_true_iff.1 halpha
      · obtain ⟨hfirst, -⟩ := of_decide_eq_true hupper
        have hge : 65 ≤ c.val.toNat := UInt32.le_iff_toNat_le.1 hfirst
        omega
      · obtain ⟨hfirst, -⟩ := Bool.and_eq_true_iff.1 hlower
        have hge : 97 ≤ c.val.toNat := UInt32.le_iff_toNat_le.1 (of_decide_eq_true hfirst)
        omega
    · obtain rfl := of_decide_eq_true hunderscore
      contradiction
  · obtain rfl := of_decide_eq_true hdollar
    contradiction

theorem IsName.isNameChar {name : List Char} (h : IsName name) {c : Char} (hc : c ∈ name) :
    isNameChar c = true := by
  cases name with
  | nil => contradiction
  | cons first rest =>
      rcases List.mem_cons.1 hc with rfl | hrest
      · exact isNameChar_of_isNameStart h.1
      · exact h.2 c hrest

theorem IsName.exists_cons {name : List Char} (h : IsName name) :
    ∃ c cs, name = c :: cs ∧ isNameStart c = true := by
  cases name with
  | nil => contradiction
  | cons c cs => exact ⟨c, cs, rfl, h.1⟩

/-- A name starts with no layout. -/
theorem IsName.solid {name : List Char} (h : IsName name) {place : Cursor} {rest : List Char}
    (hplace : place.rest = name ++ rest) : skipLayout place = place := by
  obtain ⟨offset, read⟩ := place
  obtain rfl : read = name ++ rest := hplace
  obtain ⟨c, cs, rfl, hc⟩ := h.exists_cons
  refine skipLayout_of_ne (Bool.eq_false_iff.2 fun hblank => ?_) ?_
  · simp only [isLayoutBlank, Bool.or_eq_true, decide_eq_true_eq] at hblank
    rcases hblank with ((rfl | rfl) | rfl) | rfl <;> contradiction
  · rintro rfl
    contradiction

theorem isName_of_mem_keywords : ∀ word ∈ keywords, IsName word.toList := by
  decide

/-- Where names are read to their ends, one name is read. -/
theorem eq_of_names {first second rest others : List Char}
    (hfirst : ∀ c ∈ first, isNameChar c = true) (hsecond : ∀ c ∈ second, isNameChar c = true)
    (hrest : startsInName rest = false) (hothers : startsInName others = false)
    (h : first ++ rest = second ++ others) : first = second := by
  induction first generalizing second with
  | nil =>
      cases second with
      | nil => rfl
      | cons c second =>
          obtain rfl : rest = c :: (second ++ others) := h
          have hc : isNameChar c = false := hrest
          rw [hsecond c List.mem_cons_self] at hc
          exact nomatch hc
  | cons c first ih =>
      cases second with
      | nil =>
          obtain rfl : c :: (first ++ rest) = others := h
          have hc : isNameChar c = false := hothers
          rw [hfirst c List.mem_cons_self] at hc
          exact nomatch hc
      | cons d second =>
          obtain ⟨rfl, htail⟩ := List.cons.inj h
          rw [ih (fun c hc => hfirst c (List.mem_cons_of_mem _ hc))
            (fun c hc => hsecond c (List.mem_cons_of_mem _ hc)) htail]

variable {mode : Mode} {place stop : Cursor}

theorem next?_of_startsInName (h : startsInName stop.rest = false) :
    stop.next? isNameChar = none := by
  obtain ⟨offset, rest⟩ := stop
  cases rest with
  | nil => rfl
  | cons c rest => exact if_neg (Bool.eq_false_iff.1 h)

/-- One of some words stands where their choice matches. -/
theorem exists_word {words : List String} {result : Match Rule}
    (h : Matches grammar mode (oneOf (words.map literal)) place result) :
    ∃ word ∈ words, place.drop? word.toList = some result.stop := by
  induction words with
  | nil =>
      cases h with
      | «unless» h => exact absurd h (Matches.text rfl).not_refused
  | cons word words ih =>
      cases words with
      | nil =>
          cases h with
          | text h => exact ⟨word, List.mem_singleton_self word, h⟩
      | cons next words =>
          cases h with
          | altFirst _ h =>
              cases h with
              | text h => exact ⟨word, List.mem_cons_self, h⟩
          | altSecond _ h =>
              obtain ⟨found, hfound, hdrop⟩ := ih h
              exact ⟨found, List.mem_cons_of_mem _ hfound, hdrop⟩

theorem moves_words (words : List String) :
    (oneOf (words.map literal)).moves mayBeEmpty = true := by
  induction words with
  | nil => rfl
  | cons word words ih =>
      cases words with
      | nil => rfl
      | cons next words => exact ih

/-- Keywords are refused where another name stands. -/
theorem refused_word {words : List String} (hwords : ∀ word ∈ words, word ∈ keywords)
    {name : String} {rest : List Char} (hname : IsIdentifier name)
    (hplace : place.rest = name.toList ++ rest) (hrest : startsInName rest = false)
    {e : Peg.Expr Rule} (hmoves : e.moves mayBeEmpty = true)
    (he : ∀ result, Matches grammar .token e place result →
      ∃ word ∈ words, place.drop? word.toList = some result.stop) :
    Derives grammar .token (.seq e wordEnd) place none := by
  have hseq : (Peg.Expr.seq e wordEnd).moves mayBeEmpty = true := by
    rw [Expr.moves, hmoves]
    rfl
  refine (matches_or_refused .token hseq place).resolve_left fun ⟨result, h⟩ => ?_
  have hend := startsInName_of_wordEnd h
  obtain ⟨first, second, hfirst, hsecond, rfl⟩ := h.of_seq
  obtain ⟨word, hword, hdrop⟩ := he first hfirst
  obtain ⟨hread, -⟩ := Cursor.drop?_eq_some_iff.1 hdrop
  cases hsecond with
  | «unless» =>
      have hkeyword := hwords word hword
      have heq : word.toList = name.toList := by
        refine eq_of_names (fun _ => (isName_of_mem_keywords word hkeyword).isNameChar)
          (fun _ => hname.1.isNameChar) hend hrest ?_
        rw [← hplace]
        exact hread.symm
      rw [String.toList_inj.1 heq] at hkeyword
      exact hname.2 hkeyword

/-- The words of a rule that consists of words. -/
def wordsOf? : Rule → Option (List String)
  | .boolean => some ["true", "false"]
  | .nullLit => some ["null"]
  | .declKind => some ["const", "let", "var"]
  | .opTypeof => some ["typeof"]
  | .opInstanceof => some ["instanceof"]
  | .opIn => some ["in"]
  | .kwAsync => some ["async"]
  | .kwFunction => some ["function"]
  | .kwIf => some ["if"]
  | .kwFor => some ["for"]
  | .kwWhile => some ["while"]
  | .kwDo => some ["do"]
  | .kwReturn => some ["return"]
  | .kwThrow => some ["throw"]
  | .kwBreak => some ["break"]
  | .kwContinue => some ["continue"]
  | .kwTry => some ["try"]
  | .kwNew => some ["new"]
  | .kwAwait => some ["await"]
  | .kwSwitch => some ["switch"]
  | .kwClass => some ["class"]
  | _ => none

theorem body_of_wordsOf? {r : Rule} {words : List String} (h : wordsOf? r = some words) :
    kind r = .token ∧ body r = .seq (oneOf (words.map literal)) wordEnd := by
  cases r <;> first | contradiction | (obtain rfl := Option.some.inj h; exact ⟨rfl, rfl⟩)

theorem mem_keywords_of_wordsOf? {r : Rule} {words : List String} (h : wordsOf? r = some words) :
    ∀ word ∈ words, word ∈ keywords := by
  cases r <;> first | contradiction | (obtain rfl := Option.some.inj h; decide)

/-- Numbers start with a digit or with a point. -/
theorem refused_number {c : Char} (hdigit : c.isDigit = false) (hpoint : c ≠ '.') (offset : Nat)
    (rest : List Char) : Derives grammar mode (.rule .number) ⟨offset, c :: rest⟩ none := by
  have hne (d : Char) (hd : d.isDigit = true) : d ≠ c := by
    rintro rfl
    rw [hd] at hdigit
    contradiction
  have htext {d : Char} (hd : d ≠ c) (others : List Char) :
      Derives grammar .token (.text (d :: others)) ⟨offset, c :: rest⟩ none :=
    .text_none (if_neg hd)
  have hdigits : Derives grammar .token digits ⟨offset, c :: rest⟩ none :=
    .seqRefused (.char_none (if_neg (Bool.eq_false_iff.1 hdigit)))
  have hzero (others rest : List Char) (f : Peg.Expr Rule) :
      Derives grammar .token (.seq (.alt (.text ('0' :: others)) (.text ('0' :: rest))) f) _ none :=
    .seqRefused (.altSecond (htext (hne '0' rfl) others) (htext (hne '0' rfl) rest))
  have hdecimal : Derives grammar .token
      (.alt (.seq digits (.optional (.seq "." digits))) (.seq "." digits)) _ none :=
    .altSecond (.seqRefused hdigits) (.seqRefused (htext hpoint.symm []))
  exact .rule_none (.seqRefused (.altSecond (hzero _ _ _) (.altSecond (hzero _ _ _)
    (.altSecond (hzero _ _ _) (.seqRefused hdecimal)))))

theorem IsName.refused_number {name : List Char} (h : IsName name) {rest : List Char}
    (hplace : place.rest = name ++ rest) : Derives grammar mode (.rule .number) place none := by
  obtain ⟨offset, read⟩ := place
  obtain rfl : read = name ++ rest := hplace
  obtain ⟨c, cs, rfl, hc⟩ := h.exists_cons
  refine EventLoop.Script.refused_number (isDigit_of_isNameStart hc) ?_ offset _
  rintro rfl
  contradiction

/-! ## Keywords -/

/-- Whether a word is a keyword, and no keyword before it starts like it. -/
def isReserved (word : String) : Bool :=
  word ∈ keywords && (keywords.takeWhile (· ≠ word)).all fun other =>
    !(other.toList.isPrefixOf word.toList || word.toList.isPrefixOf other.toList)

/-- A name that is taken for an identifier. -/
def IsAccepted (name : String) : Prop :=
  IsName name.toList ∧ isReserved name = false

theorem IsIdentifier.accepted {name : String} (h : IsIdentifier name) : IsAccepted name := by
  obtain ⟨hname, hkeyword⟩ := h
  refine ⟨hname, Bool.eq_false_iff.2 fun hreserved => hkeyword ?_⟩
  exact of_decide_eq_true (Bool.and_eq_true_iff.1 hreserved).1

theorem exists_split_of_mem {α : Type} [DecidableEq α] {a : α} {as : List α} (h : a ∈ as) :
    ∃ behind, as = as.takeWhile (· ≠ a) ++ a :: behind := by
  induction as with
  | nil => contradiction
  | cons first as ih =>
      by_cases hfirst : first = a
      · subst hfirst
        exact ⟨as, by simp⟩
      · obtain ⟨behind, hbehind⟩ := ih ((List.mem_cons.1 h).resolve_left (Ne.symm hfirst))
        refine ⟨behind, ?_⟩
        rw [List.takeWhile_cons_of_pos (by simpa using hfirst), List.cons_append, ← hbehind]

/-- Where two texts stand, one of them starts like the other. -/
theorem drop?_of_differs {known characters rest : List Char} (hplace : place.rest = known ++ rest)
    (h : (characters.isPrefixOf known || known.isPrefixOf characters) = false) :
    place.drop? characters = none := by
  refine Option.eq_none_iff_forall_ne_some.2 fun stop hstop => ?_
  obtain ⟨hread, -⟩ := Cursor.drop?_eq_some_iff.1 hstop
  obtain ⟨hfirst, hsecond⟩ := Bool.or_eq_false_iff.1 h
  rcases List.prefix_or_prefix_of_prefix (hread ▸ List.prefix_append _ _)
    (hplace ▸ List.prefix_append _ _) with hprefix | hprefix
  · rw [List.isPrefixOf_iff_prefix.2 hprefix] at hfirst
    contradiction
  · rw [List.isPrefixOf_iff_prefix.2 hprefix] at hsecond
    contradiction

/-- A keyword is no identifier. -/
theorem refused_identifier {word : String} (hword : isReserved word = true) {rest : List Char}
    (hplace : place.rest = word.toList ++ rest) (hrest : startsInName rest = false) :
    Derives grammar mode (.rule .identifier) place none := by
  obtain ⟨hkeyword, hbefore⟩ := Bool.and_eq_true_iff.1 hword
  obtain ⟨behind, hsplit⟩ := exists_split_of_mem (of_decide_eq_true hkeyword)
  obtain ⟨stop, hdrop, hstop⟩ : ∃ stop, place.drop? word.toList = some stop ∧ stop.rest = rest :=
    ⟨⟨_, rest⟩, Cursor.drop?_eq_some_iff.2 ⟨hplace, rfl⟩, rfl⟩
  have hchoice : Matches grammar .token (oneOf (keywords.map literal)) place ⟨stop, []⟩ := by
    rw [hsplit, List.map_append, List.map_cons]
    refine .oneOf (fun other hother => ?_) (.text hdrop)
    obtain ⟨text, htext, rfl⟩ := List.mem_map.1 hother
    have hother := List.all_eq_true.1 hbefore text htext
    exact .text_none (drop?_of_differs hplace (by simpa using hother))
  have hend : Matches grammar .token wordEnd stop ⟨stop, []⟩ :=
    .unless (.char_none (next?_of_startsInName (hstop ▸ hrest)))
  have hrule : Matches grammar .token (.rule .keyword) place ⟨stop, []⟩ := .rule hchoice
  have hboth : Matches grammar .token (body .reserved) place ⟨stop, []⟩ := .seq hrule hend
  have hreserved : Matches grammar .token (.rule .reserved) place ⟨stop, []⟩ := .rule hboth
  exact .rule_none (.seqRefused (.unless hreserved.derives))

end EventLoop.Script
