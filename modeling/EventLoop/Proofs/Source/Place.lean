import EventLoop.Source.Cursor
import EventLoop.Source.LineMap

/-!
# Places and lines of a text

Reading goes from one place of a text to a later one (`Cursor.Leads`).
Every character takes a byte at least, so that only reading nothing leads to a
place with the same offset (`Cursor.Leads.eq_of_offset_eq`).

Lines are numbered in the order of the text: a later offset stands on the same
line or on a later one, and there are no more lines than line feeds, apart from
the first (`LineMap.line_mono`, `LineMap.line_le`).
-/

namespace EventLoop

theorem byteLength_append (first rest : List Char) :
    byteLength (first ++ rest) = byteLength first + byteLength rest := by
  induction first with
  | nil => simp [byteLength]
  | cons c first ih => simp only [List.cons_append, byteLength, ih, Nat.add_assoc]

theorem eq_nil_of_byteLength_eq_zero {characters : List Char} (h : byteLength characters = 0) :
    characters = [] := by
  cases characters with
  | nil => rfl
  | cons c characters =>
      have hpos := c.utf8Size_pos
      rw [byteLength] at h
      omega

namespace Cursor

/-- Reading on from a place leads to another one. -/
def Leads (cursor later : Cursor) : Prop :=
  ∃ read : List Char, cursor.rest = read ++ later.rest ∧
    later.offset = cursor.offset + byteLength read

namespace Leads

variable {cursor later last : Cursor}

theorem refl (cursor : Cursor) : cursor.Leads cursor :=
  ⟨[], rfl, rfl⟩

theorem trans (h : cursor.Leads later) (hlast : later.Leads last) : cursor.Leads last := by
  obtain ⟨first, hfirst, hoffset⟩ := h
  obtain ⟨second, hsecond, hoffsetLast⟩ := hlast
  refine ⟨first ++ second, ?_, ?_⟩
  · rw [hfirst, hsecond, List.append_assoc]
  · rw [hoffsetLast, hoffset, byteLength_append, Nat.add_assoc]

/-- Reading a character. -/
theorem char (offset : Nat) (c : Char) (rest : List Char) :
    Leads ⟨offset, c :: rest⟩ ⟨offset + c.utf8Size, rest⟩ :=
  ⟨[c], rfl, rfl⟩

theorem offset_le (h : cursor.Leads later) : cursor.offset ≤ later.offset := by
  obtain ⟨read, -, hoffset⟩ := h
  omega

theorem length_le (h : cursor.Leads later) : later.rest.length ≤ cursor.rest.length := by
  obtain ⟨read, hrest, -⟩ := h
  rw [hrest, List.length_append]
  exact Nat.le_add_left _ _

theorem suffix (h : cursor.Leads later) : later.rest <:+ cursor.rest := by
  obtain ⟨read, hrest, -⟩ := h
  exact ⟨read, hrest.symm⟩

/-- Only reading nothing leaves all of the text. -/
theorem eq_of_rest_eq (h : cursor.Leads later) (hrest : later.rest = cursor.rest) :
    later = cursor := by
  obtain ⟨offset, rest⟩ := cursor
  obtain ⟨laterOffset, laterRest⟩ := later
  obtain ⟨read, hread, hoffset⟩ := h
  obtain rfl : laterRest = rest := hrest
  obtain rfl : [] = read := List.append_cancel_right hread
  exact congrArg (Cursor.mk · laterRest) hoffset

/-- A place that reading leads to is the same place or comes behind the next
character. -/
theorem eq_or_next {offset : Nat} {c : Char} {rest : List Char}
    (h : Leads ⟨offset, c :: rest⟩ later) :
    later = ⟨offset, c :: rest⟩ ∨ Leads ⟨offset + c.utf8Size, rest⟩ later := by
  obtain ⟨laterOffset, laterRest⟩ := later
  obtain ⟨read, hrest, hoffset⟩ := h
  dsimp only at hrest hoffset
  cases read with
  | nil =>
      rw [hoffset, ← List.nil_append laterRest, ← hrest]
      exact .inl rfl
  | cons d read =>
      obtain ⟨rfl, htail⟩ := List.cons.inj hrest
      refine .inr ⟨read, htail, ?_⟩
      rw [hoffset, byteLength, Nat.add_assoc]

theorem eq_of_end {offset : Nat} (h : Leads ⟨offset, []⟩ later) : later = ⟨offset, []⟩ := by
  obtain ⟨laterOffset, laterRest⟩ := later
  obtain ⟨read, hrest, hoffset⟩ := h
  obtain ⟨rfl, rfl⟩ := List.append_eq_nil_iff.1 hrest.symm
  exact congrArg (Cursor.mk · []) hoffset

/-- Only reading nothing leads to a place with the same offset. -/
theorem eq_of_offset_eq (h : cursor.Leads later) (hoffset : later.offset = cursor.offset) :
    later = cursor := by
  obtain ⟨offset, rest⟩ := cursor
  cases rest with
  | nil => exact h.eq_of_end
  | cons c rest =>
      rcases h.eq_or_next with heq | hnext
      · exact heq
      · have hle := hnext.offset_le
        have hpos := c.utf8Size_pos
        dsimp only at hle hoffset
        omega

end Leads

theorem takeBytes_append (read rest : List Char) :
    takeBytes (byteLength read) (read ++ rest) = read := by
  induction read with
  | nil => simp [takeBytes, byteLength]
  | cons c read ih =>
      have hpos := c.utf8Size_pos
      have hsome : byteLength (c :: read) ≠ 0 := by
        rw [byteLength]
        omega
      rw [List.cons_append, takeBytes.eq_3 _ _ _ hsome, byteLength, Nat.add_sub_cancel_left, ih]

/-- The text between two places is what is read from one to the other. -/
theorem textTo_eq {cursor stop : Cursor} {read : List Char} (hrest : cursor.rest = read ++ stop.rest)
    (hoffset : stop.offset = cursor.offset + byteLength read) : cursor.textTo stop = read := by
  rw [textTo, hoffset, Nat.add_sub_cancel_left, hrest, takeBytes_append]

/-- A literal text is read where it stands. -/
theorem drop?_eq_some_iff {characters : List Char} {cursor stop : Cursor} :
    cursor.drop? characters = some stop ↔
      cursor.rest = characters ++ stop.rest ∧
        stop.offset = cursor.offset + byteLength characters := by
  induction characters generalizing cursor with
  | nil =>
      obtain ⟨offset, rest⟩ := cursor
      obtain ⟨stopOffset, stopRest⟩ := stop
      simp [drop?, byteLength, and_comm, eq_comm]
  | cons c characters ih =>
      obtain ⟨offset, rest⟩ := cursor
      cases rest with
      | nil => simp [drop?]
      | cons d rest =>
          rw [drop?]
          by_cases hc : c = d
          · subst hc
            simp [ih, byteLength, Nat.add_assoc]
          · simp [hc, Ne.symm hc]

theorem drop?_cons_eq_some {c : Char} {characters : List Char} {cursor stop : Cursor}
    (h : cursor.drop? (c :: characters) = some stop) :
    ∃ offset rest, cursor = ⟨offset, c :: rest⟩ ∧
      drop? characters ⟨offset + c.utf8Size, rest⟩ = some stop := by
  obtain ⟨offset, text⟩ := cursor
  cases text with
  | nil => contradiction
  | cons d rest =>
      obtain ⟨rfl, h⟩ := Option.ite_none_right_eq_some.1 h
      exact ⟨offset, rest, rfl, h⟩

theorem drop?_append (first rest : List Char) (cursor : Cursor) :
    cursor.drop? (first ++ rest) = (cursor.drop? first).bind (·.drop? rest) := by
  induction first generalizing cursor with
  | nil => rw [List.nil_append, drop?, Option.bind_some]
  | cons c first ih =>
      obtain ⟨offset, text⟩ := cursor
      cases text with
      | nil => rfl
      | cons d text =>
          rw [List.cons_append, drop?, drop?]
          split
          · exact ih _
          · rfl

/-- Two texts, one after the other, are read one after the other. -/
theorem drop?_append_eq_some {first rest : List Char} {cursor stop : Cursor}
    (h : cursor.drop? (first ++ rest) = some stop) :
    ∃ middle, cursor.drop? first = some middle ∧ middle.drop? rest = some stop := by
  rw [drop?_append] at h
  exact Option.bind_eq_some_iff.1 h

theorem Leads.of_drop? (characters : List Char) {cursor stop : Cursor}
    (h : cursor.drop? characters = some stop) : cursor.Leads stop :=
  ⟨characters, drop?_eq_some_iff.1 h⟩

/-- The place behind the next character, if it is of a class. -/
def next? (accepts : Char → Bool) : Cursor → Option Cursor
  | ⟨offset, c :: rest⟩ => if accepts c then some ⟨offset + c.utf8Size, rest⟩ else none
  | ⟨_, []⟩ => none

theorem Leads.of_next? {accepts : Char → Bool} {cursor stop : Cursor}
    (h : cursor.next? accepts = some stop) : cursor.Leads stop := by
  obtain ⟨offset, rest⟩ := cursor
  cases rest with
  | nil => contradiction
  | cons c rest =>
      obtain ⟨-, hstop⟩ := Option.ite_none_right_eq_some.1 h
      rw [← Option.some.inj hstop]
      exact char offset c rest

end Cursor

/-! ## Lines -/

namespace LineMap

theorem number_le_lineFrom (offset : Nat) (lines : List Line) :
    ∀ (number : Nat) (line : Line), number ≤ (lineFrom number line offset lines).1 := by
  induction lines with
  | nil => exact fun number _ => Nat.le_refl number
  | cons next rest ih =>
      intro number line
      rw [lineFrom]
      split
      · exact Nat.le_trans (Nat.le_succ number) (ih (number + 1) next)
      · exact Nat.le_refl _

theorem lineFrom_le (offset : Nat) (lines : List Line) :
    ∀ (number : Nat) (line : Line),
      (lineFrom number line offset lines).1 ≤ number + lines.length := by
  induction lines with
  | nil => exact fun number _ => Nat.le_refl number
  | cons next rest ih =>
      intro number line
      rw [lineFrom, List.length_cons]
      split
      · have hrest := ih (number + 1) next
        omega
      · omega

theorem lineFrom_mono {offset later : Nat} (h : offset ≤ later) (lines : List Line) :
    ∀ (number : Nat) (line : Line),
      (lineFrom number line offset lines).1 ≤ (lineFrom number line later lines).1 := by
  induction lines with
  | nil => exact fun _ _ => Nat.le_refl _
  | cons next rest ih =>
      intro number line
      by_cases hnext : next.start ≤ offset
      · rw [lineFrom, lineFrom, if_pos hnext, if_pos (Nat.le_trans hnext h)]
        exact ih (number + 1) next
      · rw [lineFrom, if_neg hnext]
        exact number_le_lineFrom later (next :: rest) number line

/-- The line of an offset, counted from zero. -/
def lineAt (map : LineMap) (offset : Nat) : Nat :=
  (map.lineColumn offset).1

theorem line_mono (map : LineMap) {offset later : Nat} (h : offset ≤ later) :
    map.lineAt offset ≤ map.lineAt later :=
  lineFrom_mono h map.rest 0 map.first

theorem length_rest_ofTextAt (text : List Char) :
    ∀ offset : Nat, (ofTextAt offset text).rest.length = text.count '\n' := by
  induction text with
  | nil => exact fun _ => rfl
  | cons c text ih =>
      intro offset
      rw [ofTextAt, List.count_cons]
      have hrest := ih (offset + c.utf8Size)
      by_cases hfeed : c = '\n'
      · subst hfeed
        simpa using hrest
      · simpa [hfeed] using hrest

theorem line_le (text : List Char) (offset : Nat) :
    (ofText text).lineAt offset ≤ text.count '\n' := by
  have hle := lineFrom_le offset (ofText text).rest 0 (ofText text).first
  rw [ofText, length_rest_ofTextAt, Nat.zero_add] at hle
  exact hle

end LineMap

end EventLoop
