import EventLoop.Proofs.Script.Names

/-!
# What the start of a text rules out

Most rules are refused because of how a text goes on: with a bracket that they do not
start with, or with a word that is not theirs.  What the start of a text says of an
expression is computed from the expression (`glance`): that it is refused, or that it
matches without reading.

Four kinds of starts are told apart: the end of the text, a known text, a keyword, and a name
that is no keyword.
-/

namespace EventLoop.Script

open Peg

variable {mode : Mode} {place : Cursor}

/-! ## Starts of texts -/

/-- How a text goes on. -/
inductive Start where
  /-- It is at its end. -/
  | nothing
  /-- With a text before which there is no layout. -/
  | text (known : List Char)
  /-- With a keyword. -/
  | keyword (word : String)
  /-- With a name that is no keyword. -/
  | name
  deriving DecidableEq

/-- A text goes on like this at a place. -/
def Start.At (place : Cursor) : Start → Prop
  | .nothing => place.rest = []
  | .text known => known <+: place.rest ∧ skipLayout place = place
  | .keyword word => ∃ rest, place.rest = word.toList ++ rest ∧ IsName word.toList ∧
      startsInName rest = false
  | .name => ∃ name rest, place.rest = name.toList ++ rest ∧ IsIdentifier name ∧
      startsInName rest = false

/-- Whether a text starts with no layout, whatever comes behind it. -/
def isSolid : List Char → Bool
  | '/' :: c :: _ => c ≠ '/' && c ≠ '*'
  | c :: _ => c ≠ '/' && !isLayoutBlank c
  | [] => false

theorem startsInName_of_drop? {c : Char} {characters : List Char} {stop : Cursor}
    (h : place.drop? (c :: characters) = some stop) : startsInName place.rest = isNameChar c := by
  obtain ⟨offset, rest, rfl, -⟩ := Cursor.drop?_cons_eq_some h
  rfl

namespace Start

/-- No layout stands before the start of a text. -/
theorem At.settled {start : Start} (h : start.At place) : skipLayout place = place := by
  obtain ⟨offset, rest⟩ := place
  cases start with
  | nothing =>
      obtain rfl : rest = [] := h
      rfl
  | text known => exact h.2
  | keyword word =>
      obtain ⟨others, hrest, hword, -⟩ := h
      exact hword.solid hrest
  | name =>
      obtain ⟨name, others, hrest, ⟨hname, -⟩, -⟩ := h
      exact hname.solid hrest

theorem At.skip {start : Start} (h : start.At place) (mode : Mode) :
    grammar.skip mode place = place := by
  unfold Grammar.skip
  split
  · exact h.settled
  · rfl

/-- A text that is no layout is the start of what goes on with it. -/
theorem at_text {known rest : List Char} {stop : Cursor} (hsolid : isSolid known = true)
    (hdrop : place.drop? (known ++ rest) = some stop) : (Start.text known).At place := by
  obtain ⟨hread, -⟩ := Cursor.drop?_eq_some_iff.1 hdrop
  rw [List.append_assoc] at hread
  refine ⟨⟨rest ++ stop.rest, hread.symm⟩, ?_⟩
  obtain ⟨offset, read⟩ := place
  obtain rfl : read = known ++ (rest ++ stop.rest) := hread
  unfold isSolid at hsolid
  split at hsolid
  next c others =>
    simp only [ne_eq, decide_not, Bool.and_eq_true, Bool.not_eq_true', decide_eq_false_iff_not]
      at hsolid
    change skipFrom .blanks offset ('/' :: c :: _) = _
    rw [skipFrom, if_neg (by decide)]
    · rfl
    · rintro rest - ⟨⟩
      exact hsolid.1 rfl
    · rintro rest - ⟨⟩
      exact hsolid.2 rfl
  next c others hslash =>
    simp only [ne_eq, decide_not, Bool.and_eq_true, Bool.not_eq_true', decide_eq_false_iff_not]
      at hsolid
    exact skipLayout_of_ne hsolid.2 hsolid.1
  next => contradiction

theorem at_name {name : String} {stop : Cursor} (hname : IsIdentifier name)
    (hdrop : place.drop? name.toList = some stop) (hword : startsInName stop.rest = false) :
    Start.name.At place :=
  ⟨name, stop.rest, (Cursor.drop?_eq_some_iff.1 hdrop).1, hname, hword⟩

theorem at_keyword {word : String} {stop : Cursor} (hname : IsName word.toList)
    (hdrop : place.drop? word.toList = some stop) (hword : startsInName stop.rest = false) :
    (keyword word).At place :=
  ⟨stop.rest, (Cursor.drop?_eq_some_iff.1 hdrop).1, hname, hword⟩

theorem at_keyword_space {word : String} {stop : Cursor} (hname : IsName word.toList) {rest : List Char}
    (hdrop : place.drop? (word.toList ++ ' ' :: rest) = some stop) :
    (keyword word).At place := by
  obtain ⟨last, hlast, hspace⟩ := Cursor.drop?_append_eq_some hdrop
  exact at_keyword hname hlast (startsInName_of_drop? hspace)

/-- Whether a literal text does not stand at a start. -/
def misses : Start → List Char → Bool
  | _, [] => false
  | .nothing, _ => true
  | .text known, characters => !(characters.isPrefixOf known || known.isPrefixOf characters)
  | .keyword word, characters =>
    !(characters.isPrefixOf word.toList || word.toList.isPrefixOf characters)
  | .name, c :: _ => !isNameStart c

/-- Whether no character of a class stands at a start. -/
def lacks : Start → (Char → Bool) → Bool
  | .nothing, _ => true
  | .text known, accepts => known.head?.any (!accepts ·)
  | .keyword word, accepts => word.toList.head?.any (!accepts ·)
  | .name, _ => false

/-- Whether a rule for words, numbers or names is refused at a start. -/
def bars : Start → Rule → Bool
  | .name, r => r = .number || (wordsOf? r).isSome
  | .keyword word, r => r = .number || r = .identifier && isReserved word
  | _, _ => false

theorem drop?_of_misses {start : Start} (hat : start.At place) {characters : List Char}
    (h : start.misses characters = true) : place.drop? characters = none := by
  cases characters with
  | nil => contradiction
  | cons c characters =>
      cases start with
      | nothing =>
          obtain ⟨offset, rest⟩ := place
          obtain rfl : rest = [] := hat
          rfl
      | text known =>
          obtain ⟨⟨others, hothers⟩, -⟩ := hat
          exact drop?_of_differs hothers.symm (by simpa [misses] using h)
      | keyword word =>
          obtain ⟨others, hothers, -, -⟩ := hat
          exact drop?_of_differs hothers (by simpa [misses] using h)
      | name =>
          obtain ⟨name, others, hrest, ⟨hname, -⟩, -⟩ := hat
          obtain ⟨d, cs, hname, hd⟩ := hname.exists_cons
          obtain ⟨offset, rest⟩ := place
          obtain rfl : rest = name.toList ++ others := hrest
          rw [hname]
          refine if_neg ?_
          rintro rfl
          simp [misses, hd] at h

theorem next?_of_lacks {start : Start} (hat : start.At place) {accepts : Char → Bool}
    (h : start.lacks accepts = true) : place.next? accepts = none := by
  have hnext {known others : List Char} (hrest : place.rest = known ++ others)
      (hhead : known.head?.any (!accepts ·) = true) : place.next? accepts = none := by
    obtain ⟨offset, rest⟩ := place
    obtain rfl : rest = known ++ others := hrest
    cases known with
    | nil => contradiction
    | cons c known => exact if_neg (by simpa using hhead)
  cases start with
  | nothing =>
      obtain ⟨offset, rest⟩ := place
      obtain rfl : rest = [] := hat
      rfl
  | text known =>
      obtain ⟨⟨others, hothers⟩, -⟩ := hat
      exact hnext hothers.symm h
  | keyword word =>
      obtain ⟨others, hothers, -, -⟩ := hat
      exact hnext hothers h
  | name => contradiction

theorem refused_of_bars {start : Start} (hat : start.At place) {r : Rule}
    (h : start.bars r = true) : Derives grammar mode (.rule r) place none := by
  cases start with
  | nothing | text => contradiction
  | keyword word =>
      obtain ⟨rest, hplace, hword, hrest⟩ := hat
      rcases Bool.or_eq_true_iff.1 h with hnumber | hidentifier
      · obtain rfl := of_decide_eq_true hnumber
        exact hword.refused_number hplace
      · obtain ⟨hrule, hreserved⟩ := Bool.and_eq_true_iff.1 hidentifier
        obtain rfl := of_decide_eq_true hrule
        exact refused_identifier hreserved hplace hrest
  | name =>
      obtain ⟨name, rest, hplace, hname, hrest⟩ := hat
      rcases Bool.or_eq_true_iff.1 h with hnumber | hwords
      · obtain rfl := of_decide_eq_true hnumber
        exact hname.1.refused_number hplace
      · obtain ⟨words, hwords⟩ := Option.isSome_iff_exists.1 hwords
        obtain ⟨hkind, hbody⟩ := body_of_wordsOf? hwords
        refine .rule_none ?_
        change Derives grammar ((kind r).modeIn mode) (body r) place none
        rw [hkind, hbody]
        exact refused_word (mem_keywords_of_wordsOf? hwords) hname hplace hrest
          (moves_words words) fun _ => exists_word

end Start

/-- What the start of a text says of an expression. -/
inductive Verdict where
  | refused
  /-- It matches without reading. -/
  | nothing
  | unknown
  deriving DecidableEq

/-- What the start of a text says of an expression, by what it says of rules. -/
def glance (start : Start) (ofRule : Rule → Verdict) : Peg.Expr Rule → Verdict
  | .text characters =>
    if characters.isEmpty then .nothing
    else if start.misses characters then .refused else .unknown
  | .char accepts => if start.lacks accepts then .refused else .unknown
  | .endOfText => .unknown
  | .rule r => ofRule r
  | .seq e f =>
    match glance start ofRule e with
    | .nothing => glance start ofRule f
    | verdict => verdict
  | .alt e f =>
    match glance start ofRule e with
    | .refused => glance start ofRule f
    | verdict => verdict
  | .optional e | .many e | .unless e =>
    match glance start ofRule e with
    | .refused => .nothing
    | _ => .unknown

/-- What the start of a text says of a rule, by the bodies of rules to some depth. -/
def glanceAt (start : Start) : Nat → Rule → Verdict
  | 0, _ => .unknown
  | depth + 1, r => if start.bars r then .refused else glance start (glanceAt start depth) (body r)

/-- An expression comes to what is said of it. -/
def Verdict.Holds (mode : Mode) (e : Peg.Expr Rule) (place : Cursor) : Verdict → Prop
  | .refused => Derives grammar mode e place none
  | .nothing => ∃ trees, Matches grammar mode e place ⟨place, trees⟩
  | .unknown => True

theorem holds_glance {start : Start} (hat : start.At place) {ofRule : Rule → Verdict}
    (hrules : ∀ mode r, (ofRule r).Holds mode (.rule r) place) (mode : Mode) (e : Peg.Expr Rule) :
    (glance start ofRule e).Holds mode e place := by
  induction e with
  | text characters =>
      rw [glance]
      split
      next hempty =>
        obtain rfl := List.isEmpty_iff.1 hempty
        exact ⟨[], .text rfl⟩
      next =>
        split
        next hmisses => exact .text_none (Start.drop?_of_misses hat hmisses)
        next => trivial
  | char accepts =>
      rw [glance]
      split
      next hlacks => exact .char_none (Start.next?_of_lacks hat hlacks)
      next => trivial
  | endOfText => trivial
  | rule r => exact hrules mode r
  | seq e f ih ihrest =>
      rw [glance]
      cases he : glance start ofRule e with
      | refused =>
          rw [he] at ih
          exact .seqRefused ih
      | nothing =>
          rw [he] at ih
          obtain ⟨trees, hfirst⟩ := ih
          dsimp only
          cases hf : glance start ofRule f with
          | refused =>
              rw [hf] at ihrest
              refine .seq_none hfirst ?_
              rwa [hat.skip]
          | nothing =>
              rw [hf] at ihrest
              obtain ⟨others, hsecond⟩ := ihrest
              rw [← hat.skip mode] at hsecond
              have hseq := Matches.seq hfirst hsecond
              rw [hat.skip] at hseq
              exact ⟨trees ++ others, hseq⟩
          | unknown => trivial
      | unknown => trivial
  | alt e f ih ihrest =>
      rw [glance]
      cases he : glance start ofRule e with
      | refused =>
          rw [he] at ih
          dsimp only
          cases hf : glance start ofRule f with
          | refused =>
              rw [hf] at ihrest
              exact .altSecond ih ihrest
          | nothing =>
              rw [hf] at ihrest
              obtain ⟨trees, hsecond⟩ := ihrest
              exact ⟨trees, .altSecond ih hsecond⟩
          | unknown => trivial
      | nothing =>
          rw [he] at ih
          obtain ⟨trees, hfirst⟩ := ih
          exact ⟨trees, .altFirst f hfirst⟩
      | unknown => trivial
  | optional e ih =>
      rw [glance]
      cases he : glance start ofRule e with
      | refused =>
          rw [he] at ih
          exact ⟨[], .absent ih⟩
      | _ => trivial
  | many e ih =>
      rw [glance]
      cases he : glance start ofRule e with
      | refused =>
          rw [he] at ih
          exact ⟨[], .noMore ih⟩
      | _ => trivial
  | «unless» e ih =>
      rw [glance]
      cases he : glance start ofRule e with
      | refused =>
          rw [he] at ih
          exact ⟨[], .unless ih⟩
      | _ => trivial

theorem holds_glanceAt {start : Start} (hat : start.At place) (depth : Nat) (mode : Mode)
    (r : Rule) : (glanceAt start depth r).Holds mode (.rule r) place := by
  induction depth generalizing mode r with
  | zero => trivial
  | succ depth ih =>
      rw [glanceAt]
      split
      next hbars => exact Start.refused_of_bars hat hbars
      next =>
        have hbody := holds_glance hat ih ((kind r).modeIn mode) (body r)
        cases hverdict : glance start (glanceAt start depth) (body r) with
        | refused =>
            rw [hverdict] at hbody
            exact .rule_none hbody
        | nothing =>
            rw [hverdict] at hbody
            obtain ⟨trees, hmatch⟩ := hbody
            have hrule : Matches grammar mode (.rule r) place _ := .rule hmatch
            have hstop := grammar.record_stop mode r place ⟨place, trees⟩
            generalize grammar.record mode r place ⟨place, trees⟩ = result at hrule hstop
            obtain ⟨stop, others⟩ := result
            obtain rfl : stop = place := hstop
            exact ⟨others, hrule⟩
        | unknown => trivial

/-- Whether an expression is refused because of how a text goes on. -/
def Start.refuses (start : Start) (e : Peg.Expr Rule) : Bool :=
  glance start (glanceAt start 24) e = .refused

/-- What is refused because of how a text goes on is refused. -/
theorem Start.At.refused {start : Start} (hat : start.At place) {e : Peg.Expr Rule}
    (h : start.refuses e = true) : Derives grammar mode e place none := by
  have hholds := holds_glance hat (holds_glanceAt hat 24) mode e
  rwa [of_decide_eq_true h] at hholds

/-- An expression does not start with a closing bracket, and a condition not with a name. -/
example : (Start.text [')']).refuses (.rule .expression) = true ∧
    Start.name.refuses (.rule .ifStmt) = true := by decide

/-- A choice between rules matches what one of them matches, if the start of the text rules out
those before it. -/
theorem Start.At.choose {start : Start} (hat : start.At place) (rules : List Rule) {r : Rule}
    (hr : r ∈ rules)
    (hbefore : ∀ other ∈ rules.takeWhile (· ≠ r), start.refuses (.rule other) = true)
    {result : Match Rule} (h : Matches grammar mode (.rule r) place result) :
    Matches grammar mode (oneOf (rules.map .rule)) place result := by
  obtain ⟨behind, hsplit⟩ := exists_split_of_mem hr
  rw [hsplit, List.map_append, List.map_cons]
  refine .oneOf (fun f hf => ?_) h
  obtain ⟨other, hother, rfl⟩ := List.mem_map.1 hf
  exact hat.refused (hbefore other hother)

end EventLoop.Script
