import EventLoop.Proofs.Script.Token
import Mathlib.Algebra.Ring.Parity
import Mathlib.Data.List.DropRight
import Mathlib.Data.List.Induction

/-!
# Quoted texts

Quoting a text puts a backslash in front of each of its backslashes and single quotes, which
is the same as doubling the backslashes first and then giving the quotes theirs
(`Text.escape_eq_replace`).

A character is escaped by the backslashes right before it if their number is odd.  An escaped
text never ends with such a number of backslashes (`Text.even_backslashes_escape`), and each
quote in it is one of the text behind its own backslash (`Text.exists_of_escape_eq`).  So behind
the first quote of a quoted text the last one is the only one that is not escaped
(`Text.odd_backslashes_iff`).

Reading the characters between quotes therefore goes on to the last quote, or to the first line
end of the text, since a line end is never escaped (`exists_matches_sqChars`).
-/

namespace EventLoop.Text

/-! ## Escaping -/

theorem escape_append (first rest : List Char) :
    escape (first ++ rest) = escape first ++ escape rest := by
  induction first with
  | nil => rfl
  | cons c first ih =>
      rw [List.cons_append, escape, escape, ih]
      split <;> rfl

/-- A text with other characters in place of each occurrence of a character. -/
def replace (c : Char) (others text : List Char) : List Char :=
  text.flatMap fun d => if d = c then others else [d]

/-- Escaping replaces the backslashes first, so that those of the quotes are not doubled. -/
theorem escape_eq_replace (text : List Char) :
    escape text = replace '\x27' ['\\', '\x27'] (replace '\\' ['\\', '\\'] text) := by
  induction text with
  | nil => rfl
  | cons c text ih =>
      unfold replace at ih ⊢
      rw [List.flatMap_cons, List.flatMap_append, ← ih, escape]
      by_cases hescape : c = '\\'
      · subst hescape
        rfl
      · by_cases hquote : c = '\x27'
        · subst hquote
          rfl
        · simp [hescape, hquote]

/-! ## Escaped characters -/

/-- The number of backslashes at the end of a text. -/
def backslashes (before : List Char) : Nat :=
  (before.rtakeWhile (· = '\\')).length

theorem backslashes_concat_escape (before : List Char) :
    backslashes (before ++ ['\\']) = backslashes before + 1 := by
  unfold backslashes
  rw [List.rtakeWhile_concat_pos _ _ _ (by decide), List.length_append, List.length_singleton]

theorem backslashes_concat_of_ne (before : List Char) {c : Char} (h : c ≠ '\\') :
    backslashes (before ++ [c]) = 0 := by
  unfold backslashes
  rw [List.rtakeWhile_concat_neg _ _ _ (by simpa using h), List.length_nil]

/-- What stands behind an escaped text is not escaped. -/
theorem even_backslashes_escape (text : List Char) : Even (backslashes (escape text)) := by
  induction text using List.reverseRecOn with
  | nil => exact Even.zero
  | append_singleton text c ih =>
      rw [escape_append, escape]
      by_cases hescape : c = '\\'
      · subst hescape
        have hpair : escape text ++ ['\\', '\\'] = escape text ++ ['\\'] ++ ['\\'] := by simp
        rw [if_pos (.inl rfl), escape, hpair, backslashes_concat_escape, backslashes_concat_escape]
        exact ih.add (by decide : Even 2)
      · split
        · have hpair : escape text ++ ['\\', c] = escape text ++ ['\\'] ++ [c] := by simp
          rw [escape, hpair, backslashes_concat_of_ne _ hescape]
          exact Even.zero
        · rw [escape, backslashes_concat_of_ne _ hescape]
          exact Even.zero

/-- A quote in an escaped text is one of the text, behind a backslash of its own. -/
theorem exists_of_escape_eq {text before after : List Char}
    (h : escape text = before ++ '\x27' :: after) :
    ∃ first rest, text = first ++ '\x27' :: rest ∧ before = escape first ++ ['\\'] ∧
      after = escape rest := by
  induction text generalizing before with
  | nil => simp [escape] at h
  | cons c text ih =>
      rw [escape] at h
      split at h
      next hescaped =>
        -- the first character is the backslash, and the second one may be the quote
        cases before with
        | nil => exact absurd (List.cons.inj h).1 (by decide)
        | cons _ before =>
            obtain ⟨rfl, hrest⟩ := List.cons.inj h
            cases before with
            | nil =>
                obtain ⟨rfl, rfl⟩ := List.cons.inj hrest
                exact ⟨[], text, rfl, rfl, rfl⟩
            | cons _ before =>
                obtain ⟨rfl, htext⟩ := List.cons.inj hrest
                obtain ⟨first, rest, rfl, rfl, rfl⟩ := ih htext
                exact ⟨c :: first, rest, rfl, by rw [escape, if_pos hescaped]; rfl, rfl⟩
      next hplain =>
        cases before with
        | nil => exact absurd (.inr (List.cons.inj h).1) hplain
        | cons d before =>
            obtain ⟨rfl, htext⟩ := List.cons.inj h
            obtain ⟨first, rest, rfl, rfl, rfl⟩ := ih htext
            exact ⟨c :: first, rest, rfl, by rw [escape, if_neg hplain]; rfl, rfl⟩

/-- Of the quotes behind the first one of a quoted text, all but the last one are escaped. -/
theorem odd_backslashes_iff {text before after : List Char}
    (h : escape text ++ ['\x27'] = before ++ '\x27' :: after) :
    Odd (backslashes before) ↔ after ≠ [] := by
  cases after using List.reverseRecOn with
  | nil =>
      obtain rfl := List.append_cancel_right h
      simpa using even_backslashes_escape text
  | append_singleton after last =>
      -- the quote belongs to the escaped text, which ends before the last one
      rw [← List.cons_append, ← List.append_assoc] at h
      obtain ⟨first, rest, -, rfl, -⟩ := exists_of_escape_eq (List.append_inj_left' h rfl)
      rw [backslashes_concat_escape]
      simpa using (even_backslashes_escape first).add_one

end EventLoop.Text

namespace EventLoop.Script

open Peg

/-! ## Reading between quotes -/

/-- The characters between quotes are read up to a place, and in no other way. -/
def ReadsQuotedTo (place stop : Cursor) : Prop :=
  ∀ result, Matches grammar .joined (.rule .sqChars) place result ↔
    result = ⟨stop, [.node .sqChars place stop []]⟩

theorem readsQuotedTo_of_matches {place stop : Cursor}
    (h : Matches grammar .token (stringChars '\x27') place ⟨stop, []⟩) :
    ReadsQuotedTo place stop := by
  have hmatch := matches_rule .joined .sqChars nofun nofun h
  intro result
  constructor
  · exact fun hresult => hresult.unique hmatch
  · rintro rfl
    exact hmatch

/-- An escaped text is read to the quote behind it, or to a line end that the text has. -/
theorem exists_readsQuotedTo {text rest : List Char} {place : Cursor}
    (h : place.rest = Text.escape text ++ '\x27' :: rest) :
    ∃ stop, ReadsQuotedTo place stop ∧
      (stop.rest = '\x27' :: rest ∨
        ∃ c behind, stop.rest = c :: behind ∧ isLineEnd c = true ∧ c ∈ text) := by
  cases hfind : text.find? isLineEnd with
  | none =>
      have hline (c : Char) (hc : c ∈ text) : isLineEnd c = false := by
        simpa using List.find?_eq_none.1 hfind c hc
      have hdrop : place.drop? (Text.escape text) = some ⟨_, '\x27' :: rest⟩ :=
        Cursor.drop?_eq_some_iff.2 ⟨h, rfl⟩
      exact ⟨_, readsQuotedTo_of_matches (matches_sqChars hline hdrop rfl (.inl rfl)), .inl rfl⟩
  | some c =>
      obtain ⟨hc, line, behind, rfl, hline⟩ := List.find?_eq_some_iff_append.1 hfind
      -- a line end gets no backslash, so that it is not taken along by one
      have hplain : ¬ (c = '\\' ∨ c = '\x27') := by
        rintro (rfl | rfl) <;> exact absurd hc (by decide)
      rw [Text.escape_append, Text.escape, if_neg hplain, List.append_assoc, List.cons_append] at h
      have hdrop : place.drop? (Text.escape line) =
          some ⟨_, c :: (Text.escape behind ++ '\x27' :: rest)⟩ :=
        Cursor.drop?_eq_some_iff.2 ⟨h, rfl⟩
      have hmatch := matches_sqChars (fun d hd => by simpa using hline d hd) hdrop rfl (.inr hc)
      exact ⟨_, readsQuotedTo_of_matches hmatch,
        .inr ⟨c, _, rfl, hc, List.mem_append_right _ List.mem_cons_self⟩⟩

/-- **Unescaping undoes quoting.**  A quoted text stands between two single quotes, with its
backslashes doubled and then a backslash before each of its quotes.  Behind the first quote only
the last one is not escaped, so that reading the characters between the quotes does not stop
before it, unless at a line end of the text.  What stands between the two is unescaped to the
text again, so that no two texts are quoted alike. -/
theorem unescape_undoes_quote :
    (∀ s : String, ∃ inside : List Char,
      (Text.quote s).toList = '\x27' :: inside ++ ['\x27'] ∧
        inside = Text.replace '\x27' ['\\', '\x27'] (Text.replace '\\' ['\\', '\\'] s.toList) ∧
        (∀ before after, inside ++ ['\x27'] = before ++ '\x27' :: after →
          (Odd (Text.backslashes before) ↔ after ≠ [])) ∧
        (∀ (place : Cursor) (rest : List Char), place.rest = inside ++ '\x27' :: rest →
          ∃ stop, ReadsQuotedTo place stop ∧
            (stop.rest = '\x27' :: rest ∨
              ∃ c behind, stop.rest = c :: behind ∧ isLineEnd c = true ∧ c ∈ s.toList)) ∧
        String.ofList (Text.unescape inside) = s) ∧
      Function.Injective Text.quote := by
  constructor
  · intro s
    refine ⟨Text.escape s.toList, by rw [Text.quote, String.toList_ofList],
      Text.escape_eq_replace s.toList, fun before after h => Text.odd_backslashes_iff h,
      fun place rest h => exists_readsQuotedTo h, ?_⟩
    rw [Text.unescape_escape, String.ofList_toList]
  · intro s t h
    have hlist := congrArg String.toList h
    rw [Text.quote, Text.quote, String.toList_ofList, String.toList_ofList] at hlist
    have hinside := List.append_cancel_right (List.cons.inj hlist).2
    rw [← String.ofList_toList (s := s), ← Text.unescape_escape s.toList, hinside,
      Text.unescape_escape, String.ofList_toList]

/-- A backslash before a quote, and a line end, at which reading stops before another quote. -/
theorem unescape_undoes_quote_lines :
    let s := "\\'\n'"
    let place : Cursor := ⟨1, "\\\\\\'\n\\'';".toList⟩
    Text.quote s = "'\\\\\\'\n\\''" ∧ ∃ stop, ReadsQuotedTo place stop ∧
      (stop.rest = ['\x27', ';'] ∨
        ∃ c behind, stop.rest = c :: behind ∧ isLineEnd c = true ∧ c ∈ s.toList) := by
  intro s place
  obtain ⟨hquoted, -⟩ := unescape_undoes_quote
  obtain ⟨inside, -, rfl, -, hreads, -⟩ := hquoted s
  exact ⟨by decide, hreads place [';'] (by decide)⟩

end EventLoop.Script
