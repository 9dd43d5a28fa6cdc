import EventLoop.Proofs.Peg.Derivation
import EventLoop.Proofs.Peg.Shape

/-!
# What an expression spells

The texts that an expression without rules can read, whatever stands behind them
(`Expr.Spells`).  A match inside a token has read such a text (`Matches.spells`).
-/

namespace EventLoop.Peg

variable {R : Type}

namespace Expr

/-- A text that an expression can read. -/
inductive Spells : Expr R → List Char → Prop where
  | text (characters : List Char) : Spells (.text characters) characters
  | char {accepts : Char → Bool} {c : Char} (h : accepts c = true) : Spells (.char accepts) [c]
  | endOfText : Spells .endOfText []
  | seq {e f : Expr R} {first second : List Char} (h : Spells e first) (hrest : Spells f second) :
      Spells (.seq e f) (first ++ second)
  | altFirst {e : Expr R} {read : List Char} (h : Spells e read) (f : Expr R) :
      Spells (.alt e f) read
  | altSecond {f : Expr R} {read : List Char} (e : Expr R) (h : Spells f read) :
      Spells (.alt e f) read
  | absent (e : Expr R) : Spells (.optional e) []
  | present {e : Expr R} {read : List Char} (h : Spells e read) : Spells (.optional e) read
  | noMore (e : Expr R) : Spells (.many e) []
  | more {e : Expr R} {first rest : List Char} (h : Spells e first) (hrest : Spells (.many e) rest) :
      Spells (.many e) (first ++ rest)
  | unless (e : Expr R) : Spells (.unless e) []

variable {e f : Expr R} {read : List Char}

@[simp]
theorem spells_text {characters : List Char} :
    (text characters : Expr R).Spells read ↔ read = characters := by
  constructor
  · rintro ⟨⟩
    rfl
  · rintro rfl
    exact .text read

@[simp]
theorem spells_char {accepts : Char → Bool} :
    (char accepts : Expr R).Spells read ↔ ∃ c, accepts c = true ∧ read = [c] := by
  constructor
  · rintro ⟨⟩
    exact ⟨_, ‹_›, rfl⟩
  · rintro ⟨c, h, rfl⟩
    exact .char h

@[simp]
theorem spells_seq :
    (seq e f).Spells read ↔ ∃ first second, e.Spells first ∧ f.Spells second ∧
      read = first ++ second := by
  constructor
  · rintro ⟨⟩
    exact ⟨_, _, ‹_›, ‹_›, rfl⟩
  · rintro ⟨first, second, h, hrest, rfl⟩
    exact .seq h hrest

@[simp]
theorem spells_alt : (alt e f).Spells read ↔ e.Spells read ∨ f.Spells read := by
  constructor
  · intro h
    cases h with
    | altFirst h => exact .inl h
    | altSecond _ h => exact .inr h
  · rintro (h | h)
    · exact .altFirst h f
    · exact .altSecond e h

@[simp]
theorem spells_optional : (optional e).Spells read ↔ read = [] ∨ e.Spells read := by
  constructor
  · intro h
    cases h with
    | absent => exact .inl rfl
    | present h => exact .inr h
  · rintro (rfl | h)
    · exact .absent e
    · exact .present h

@[simp]
theorem spells_unless : (Expr.unless e).Spells read ↔ read = [] := by
  constructor
  · rintro ⟨⟩
    rfl
  · rintro rfl
    exact .unless e

/-- What a repetition spells is made of what its rounds spell. -/
theorem Spells.many_induction {motive : List Char → Prop} (h : (many e).Spells read)
    (nil : motive [])
    (append : ∀ first rest, e.Spells first → motive rest → motive (first ++ rest)) :
    motive read := by
  generalize hmany : many e = repetition at h
  induction h with
  | noMore => exact nil
  | more h _ _ ih =>
      obtain rfl := many.inj hmany
      exact append _ _ h (ih rfl)
  | _ => contradiction

end Expr

/-- Parts that follow each other directly have nothing between them. -/
theorem Grammar.skip_of_ne (grammar : Grammar R) {mode : Mode} (hmode : mode ≠ .spaced)
    (cursor : Cursor) : grammar.skip mode cursor = cursor :=
  if_neg hmode

/-- A match without layout has read a text that the expression spells. -/
theorem Matches.spells {grammar : Grammar R} {mode : Mode} {e : Expr R} {cursor : Cursor}
    {result : Match R} (h : Matches grammar mode e cursor result) (hmode : mode ≠ .spaced)
    (hplain : e.mentions = []) :
    ∃ read, e.Spells read ∧ cursor.rest = read ++ result.stop.rest ∧
      result.stop.offset = cursor.offset + byteLength read := by
  induction h with
  | @text mode characters cursor stop h =>
      exact ⟨characters, .text characters, Cursor.drop?_eq_some_iff.1 h⟩
  | @char mode accepts cursor stop h =>
      obtain ⟨offset, rest⟩ := cursor
      cases rest with
      | nil => contradiction
      | cons c rest =>
          obtain ⟨haccepts, hstop⟩ := Option.ite_none_right_eq_some.1 h
          obtain rfl := Option.some.inj hstop
          exact ⟨[c], .char haccepts, rfl, rfl⟩
  | endOfText mode offset => exact ⟨[], .endOfText, rfl, rfl⟩
  | rule => simp [Expr.mentions] at hplain
  | seq _ _ ih ihrest =>
      obtain ⟨hfirst, hsecond⟩ := List.append_eq_nil_iff.1 hplain
      obtain ⟨read, hread, hrest, hoffset⟩ := ih hmode hfirst
      rw [Grammar.skip_of_ne _ hmode] at ihrest
      obtain ⟨others, hothers, hrestOthers, hoffsetOthers⟩ := ihrest hmode hsecond
      refine ⟨read ++ others, .seq hread hothers, ?_, ?_⟩
      · rw [hrest, hrestOthers, List.append_assoc]
        rfl
      · rw [byteLength_append, ← Nat.add_assoc, ← hoffset, ← hoffsetOthers]
        rfl
  | altFirst f _ ih =>
      obtain ⟨read, hread, hplaces⟩ := ih hmode (List.append_eq_nil_iff.1 hplain).1
      exact ⟨read, .altFirst hread f, hplaces⟩
  | altSecond _ _ ih =>
      obtain ⟨read, hread, hplaces⟩ := ih hmode (List.append_eq_nil_iff.1 hplain).2
      exact ⟨read, .altSecond _ hread, hplaces⟩
  | absent => exact ⟨[], .absent _, rfl, rfl⟩
  | present _ ih =>
      obtain ⟨read, hread, hplaces⟩ := ih hmode hplain
      exact ⟨read, .present hread, hplaces⟩
  | noMore => exact ⟨[], .noMore _, rfl, rfl⟩
  | last _ _ ih =>
      obtain ⟨read, hread, hplaces⟩ := ih hmode hplain
      have hmany := Expr.Spells.more hread (.noMore _)
      rw [List.append_nil] at hmany
      exact ⟨read, hmany, hplaces⟩
  | more _ _ _ ih _ ihrest =>
      obtain ⟨read, hread, hrest, hoffset⟩ := ih hmode hplain
      rw [Grammar.skip_of_ne _ hmode] at ihrest
      obtain ⟨others, hothers, hrestOthers, hoffsetOthers⟩ := ihrest hmode hplain
      refine ⟨read ++ others, .more hread hothers, ?_, ?_⟩
      · rw [hrest, hrestOthers, List.append_assoc]
        rfl
      · rw [byteLength_append, ← Nat.add_assoc, ← hoffset, ← hoffsetOthers]
        rfl
  | «unless» => exact ⟨[], .unless _, rfl, rfl⟩

end EventLoop.Peg
