import EventLoop.Proofs.Source.Place

/-!
# Stretches of a text

A place of a text is on the line whose number is the number of line feeds before it,
and in the column that is the number of characters since the last of them
(`columnAfter`).  Looking a place up in the lines of the text gives both
(`LineMap.lineColumn_ofText`).

A span has its ends in a text (`Span.EndsIn`) if they are places of the text, and the lines
and columns that it tells are theirs.  Merging keeps this, because the merged span goes from
the first of two places to the last of two others (`LineMap.merge_span`).  If it also starts
no later than it stops, the span is a stretch of the text (`Span.stretchOf_iff`).  The span
between two places is one, and so is the span that covers two stretches, of which one comes
behind the other.
-/

namespace EventLoop

/-- The column behind a text: how many characters there are since its last line feed. -/
def columnAfter (before : List Char) : Nat :=
  (before.reverse.takeWhile (· ≠ '\n')).length

theorem columnAfter_cons_of_mem {before : List Char} (c : Char) (h : '\n' ∈ before) :
    columnAfter (c :: before) = columnAfter before := by
  have hstops : (before.reverse.takeWhile (· ≠ '\n')).length ≠ before.reverse.length := by
    intro hlength
    have hall := (List.takeWhile_sublist (· ≠ '\n')).eq_of_length hlength
    have hfeed := List.all_takeWhile (l := before.reverse) (p := (· ≠ '\n'))
    rw [hall, List.all_reverse, List.all_eq_true] at hfeed
    simpa using hfeed '\n' h
  rw [columnAfter, List.reverse_cons, List.takeWhile_append, if_neg hstops, columnAfter]

/-- Without a line feed, all characters behind some place are on one line. -/
theorem takeWhile_reverse_append {before : List Char} (h : '\n' ∉ before) (others : List Char) :
    (before.reverse ++ others).takeWhile (· ≠ '\n') =
      before.reverse ++ others.takeWhile (· ≠ '\n') := by
  refine List.takeWhile_append_of_pos fun c hc => decide_eq_true ?_
  rintro rfl
  exact h (List.mem_reverse.1 hc)

theorem columnAfter_of_not_mem {before : List Char} (h : '\n' ∉ before) :
    columnAfter before = before.length := by
  have hall := takeWhile_reverse_append h []
  rw [List.append_nil, List.takeWhile_nil, List.append_nil] at hall
  rw [columnAfter, hall, List.length_reverse]

theorem columnAfter_feed (before : List Char) :
    columnAfter ('\n' :: before) = columnAfter before := by
  by_cases h : '\n' ∈ before
  · exact columnAfter_cons_of_mem '\n' h
  · rw [columnAfter_of_not_mem h, columnAfter, List.reverse_cons, takeWhile_reverse_append h]
    simp

/-! ## Lines -/

namespace LineMap

theorem start_first_ofTextAt (offset : Nat) (text : List Char) :
    (ofTextAt offset text).first.start = offset := by
  cases text with
  | nil => rfl
  | cons c text =>
      rw [ofTextAt]
      split <;> rfl

theorem le_start_ofTextAt (text : List Char) :
    ∀ offset : Nat, ∀ line ∈ (ofTextAt offset text).rest, offset < line.start := by
  induction text with
  | nil => simp [ofTextAt]
  | cons c text ih =>
      intro offset line hline
      have hpos := c.utf8Size_pos
      have hrest := ih (offset + c.utf8Size)
      have hfirst := start_first_ofTextAt (offset + c.utf8Size) text
      rw [ofTextAt] at hline
      split at hline
      · rcases List.mem_cons.1 hline with rfl | hline
        · omega
        · have hlater := hrest line hline
          omega
      · have hlater := hrest line hline
        omega

/-- No line that starts later is reached. -/
theorem lineFrom_of_lt {offset : Nat} {lines : List Line} (h : ∀ line ∈ lines, offset < line.start)
    (number : Nat) (line : Line) : lineFrom number line offset lines = (number, line) := by
  cases lines with
  | nil => rfl
  | cons next rest => exact if_neg (Nat.not_le.2 (h next List.mem_cons_self))

/-- Either the first line is not left, or it does not matter which one it is. -/
theorem lineFrom_cases (number offset : Nat) (lines : List Line) :
    (∀ line, lineFrom number line offset lines = (number, line)) ∨
      ∀ line other, lineFrom number line offset lines = lineFrom number other offset lines ∧
        number < (lineFrom number line offset lines).1 := by
  cases lines with
  | nil => exact .inl fun _ => rfl
  | cons next rest =>
      by_cases hnext : next.start ≤ offset
      · refine .inr fun line other => ?_
        rw [lineFrom, lineFrom, if_pos hnext, if_pos hnext]
        exact ⟨rfl, number_le_lineFrom offset rest (number + 1) next⟩
      · exact .inl fun line => if_neg hnext

/-- The line behind `before`, and the column there. -/
theorem lineFrom_ofTextAt (after before : List Char) : ∀ offset number : Nat,
    let map := ofTextAt offset (before ++ after)
    let found := lineFrom number map.first (offset + byteLength before) map.rest
    found.1 = number + before.count '\n' ∧
      columnOf found.2.characters (offset + byteLength before - found.2.start) =
        columnAfter before := by
  induction before with
  | nil =>
      intro offset number
      dsimp only
      rw [List.nil_append, byteLength, Nat.add_zero,
        lineFrom_of_lt (le_start_ofTextAt after offset), start_first_ofTextAt, Nat.sub_self]
      exact ⟨rfl, by rw [columnOf]; rfl⟩
  | cons c before ih =>
      intro offset number
      have hpos := c.utf8Size_pos
      have hoffset : offset + byteLength (c :: before) =
          offset + c.utf8Size + byteLength before := by
        rw [byteLength, Nat.add_assoc]
      dsimp only
      rw [hoffset, List.cons_append, ofTextAt]
      by_cases hfeed : c = '\n'
      · subst hfeed
        obtain ⟨hnumber, hcolumn⟩ := ih (offset + '\n'.utf8Size) (number + 1)
        have hstart := start_first_ofTextAt (offset + '\n'.utf8Size) (before ++ after)
        rw [if_pos rfl, lineFrom, if_pos (by omega)]
        refine ⟨?_, ?_⟩
        · rw [hnumber, List.count_cons_self, Nat.add_assoc, Nat.add_comm 1]
        · rw [hcolumn, columnAfter_feed]
      · obtain ⟨hnumber, hcolumn⟩ := ih (offset + c.utf8Size) number
        rw [if_neg hfeed, List.count_cons_of_ne hfeed]
        rcases lineFrom_cases number (offset + c.utf8Size + byteLength before)
          (ofTextAt (offset + c.utf8Size) (before ++ after)).rest with hstays | hleaves
        · rw [hstays] at hnumber hcolumn ⊢
          have hnone : '\n' ∉ before := List.count_eq_zero.1 (by omega)
          refine ⟨hnumber, ?_⟩
          rw [start_first_ofTextAt, Nat.add_sub_cancel_left,
            columnAfter_of_not_mem hnone] at hcolumn
          have hbytes : offset + c.utf8Size + byteLength before - offset =
              byteLength before + c.utf8Size := by omega
          have hsome : byteLength before + c.utf8Size ≠ 0 := by omega
          have hfeeds : '\n' ∉ c :: before := by simp [hnone, Ne.symm hfeed]
          rw [hbytes, columnOf.eq_3 _ _ _ hsome, Nat.add_sub_cancel, hcolumn,
            columnAfter_of_not_mem hfeeds, List.length_cons, Nat.add_comm]
        · obtain ⟨heq, hlt⟩ := hleaves ⟨offset, c ::
              (ofTextAt (offset + c.utf8Size) (before ++ after)).first.characters⟩
            (ofTextAt (offset + c.utf8Size) (before ++ after)).first
          rw [heq] at hlt ⊢
          have hmem : '\n' ∈ before := List.count_pos_iff.1 (by omega)
          exact ⟨hnumber, hcolumn.trans (columnAfter_cons_of_mem c hmem).symm⟩

/-- The line and the column of a place are told by the text before it. -/
theorem lineColumn_ofText (before after : List Char) :
    (ofText (before ++ after)).lineColumn (byteLength before) =
      (before.count '\n', columnAfter before) := by
  obtain ⟨hnumber, hcolumn⟩ := lineFrom_ofTextAt after before 0 0
  rw [Nat.zero_add, Nat.zero_add] at *
  exact Prod.ext hnumber hcolumn

/-- The line and the column of the place at which a stretch of a text starts. -/
theorem lineColumn_start (before inside after : List Char) :
    (ofText (before ++ inside ++ after)).lineColumn (byteLength before) =
      (before.count '\n', columnAfter before) := by
  rw [List.append_assoc]
  exact lineColumn_ofText before (inside ++ after)

end LineMap

/-! ## Spans -/

namespace Span

/-- The span of a text that stands behind another one. -/
def ofStretch (before inside : List Char) : Span where
  start := byteLength before
  stop := byteLength (before ++ inside)
  startLine := before.count '\n'
  startColumn := columnAfter before
  stopLine := (before ++ inside).count '\n'
  stopColumn := columnAfter (before ++ inside)

/-- A span is that of a stretch of a text. -/
def StretchOf (text : List Char) (span : Span) : Prop :=
  ∃ before inside after, text = before ++ inside ++ after ∧ span = ofStretch before inside

/-- The span starts on the line on which its start stands. -/
def Located (map : LineMap) (span : Span) : Prop :=
  span.startLine = map.lineAt span.start

theorem Located.span (map : LineMap) (start stop : Nat) : (map.span start stop).Located map :=
  rfl

end Span

/-- The span of a stretch goes from the place before it to the place behind it. -/
theorem LineMap.span_ofText (before inside after : List Char) :
    (ofText (before ++ inside ++ after)).span (byteLength before) (byteLength (before ++ inside)) =
      Span.ofStretch before inside := by
  rw [span, lineColumn_start, lineColumn_ofText]
  rfl

/-- The span between two places of a text is that of the text between them. -/
theorem LineMap.exists_span_eq {text : List Char} {start stop : Cursor}
    (hstart : (Cursor.start text).Leads start) (hstop : start.Leads stop) :
    ∃ before, text = before ++ start.textTo stop ++ stop.rest ∧
      start = ⟨byteLength before, start.textTo stop ++ stop.rest⟩ ∧
      (ofText text).span start.offset stop.offset =
        Span.ofStretch before (start.textTo stop) := by
  obtain ⟨before, hbefore, hstartOffset⟩ := hstart
  obtain ⟨inside, hinside, hstopOffset⟩ := hstop
  have htext : text = before ++ inside ++ stop.rest := by
    rw [List.append_assoc, ← hinside]
    exact hbefore
  have hfirst : start.offset = byteLength before := hstartOffset.trans (Nat.zero_add _)
  have hlast : stop.offset = byteLength (before ++ inside) := by
    rw [byteLength_append, hstopOffset, hfirst]
  rw [Cursor.textTo_eq hinside hstopOffset]
  refine ⟨before, htext, ?_, ?_⟩
  · rw [← hinside, ← hfirst]
  · rw [hfirst, hlast, htext, span_ofText]

/-- The span between two places of a text. -/
theorem LineMap.stretchOf_span {text : List Char} {start stop : Cursor}
    (hstart : (Cursor.start text).Leads start) (hstop : start.Leads stop) :
    ((ofText text).span start.offset stop.offset).StretchOf text := by
  obtain ⟨before, htext, -, hspan⟩ := exists_span_eq hstart hstop
  exact ⟨before, _, stop.rest, htext, hspan⟩

namespace Span.StretchOf

variable {text : List Char} {a b : Span}

theorem start_le_stop (h : a.StretchOf text) : a.start ≤ a.stop := by
  obtain ⟨before, inside, after, -, rfl⟩ := h
  rw [ofStretch, byteLength_append]
  exact Nat.le_add_right _ _

/-- A stretch starts on the line on which its start stands. -/
theorem located (h : a.StretchOf text) : a.Located (.ofText text) := by
  obtain ⟨before, inside, after, rfl, rfl⟩ := h
  exact (congrArg Prod.fst (LineMap.lineColumn_start before inside after)).symm

/-- The text between two stretches, of which one comes behind the other. -/
theorem exists_between {first last rest others : List Char} (h : first ++ rest = last ++ others)
    (hle : byteLength first ≤ byteLength last) : ∃ gap, last = first ++ gap := by
  rcases List.append_eq_append_iff.1 h with ⟨gap, hlast, -⟩ | ⟨gap, hfirst, -⟩
  · exact ⟨gap, hlast⟩
  · rw [hfirst, byteLength_append] at hle
    have hgap : gap = [] := eq_nil_of_byteLength_eq_zero (by omega)
    rw [hgap, List.append_nil] at hfirst
    exact ⟨[], by rw [List.append_nil, hfirst]⟩

end Span.StretchOf

/-! ## Ends of spans -/

/-- A byte offset of a text at which a character starts, or the text ends. -/
def IsBoundary (text : List Char) (offset : Nat) : Prop :=
  ∃ before after, text = before ++ after ∧ offset = byteLength before

/-- Spans between offsets of one text are merged into the span from the first offset to the
last. -/
theorem LineMap.merge_span (map : LineMap) (start stop otherStart otherStop : Nat) :
    (map.span start stop).merge (map.span otherStart otherStop) =
      map.span (min start otherStart) (max stop otherStop) := by
  unfold Span.merge span
  dsimp only
  rw [Nat.min_def, Nat.max_comm, Nat.max_def]
  split <;> split <;> rfl

namespace Span

variable {text : List Char} {a b : Span}

/-- The ends of a span are places of a text, and it tells their lines and columns. -/
def EndsIn (text : List Char) (span : Span) : Prop :=
  ∃ start stop, IsBoundary text start ∧ IsBoundary text stop ∧
    span = (LineMap.ofText text).span start stop

namespace EndsIn

/-- Spans of one text with the same ends are the same. -/
theorem ext (ha : a.EndsIn text) (hb : b.EndsIn text) (hstart : a.start = b.start)
    (hstop : a.stop = b.stop) : a = b := by
  obtain ⟨start, stop, -, -, rfl⟩ := ha
  obtain ⟨otherStart, otherStop, -, -, rfl⟩ := hb
  obtain rfl : start = otherStart := hstart
  obtain rfl : stop = otherStop := hstop
  rfl

theorem merge (ha : a.EndsIn text) (hb : b.EndsIn text) : (a.merge b).EndsIn text := by
  obtain ⟨start, stop, hstart, hstop, rfl⟩ := ha
  obtain ⟨otherStart, otherStop, hotherStart, hotherStop, rfl⟩ := hb
  refine ⟨min start otherStart, max stop otherStop, ?_, ?_, LineMap.merge_span ..⟩
  · rw [Nat.min_def]
    split <;> assumption
  · rw [Nat.max_def]
    split <;> assumption

end EndsIn

/-- A stretch of a text has its ends in the text and does not stop before it starts. -/
theorem stretchOf_iff : a.StretchOf text ↔ a.EndsIn text ∧ a.start ≤ a.stop := by
  constructor
  · intro h
    refine ⟨?_, h.start_le_stop⟩
    obtain ⟨before, inside, after, rfl, rfl⟩ := h
    exact ⟨byteLength before, byteLength (before ++ inside),
      ⟨before, inside ++ after, List.append_assoc .., rfl⟩, ⟨before ++ inside, after, rfl, rfl⟩,
      (LineMap.span_ofText before inside after).symm⟩
  · rintro ⟨⟨_, _, ⟨before, others, hstart, rfl⟩, ⟨whole, after, rfl, rfl⟩, rfl⟩, hle⟩
    obtain ⟨inside, rfl⟩ := StretchOf.exists_between hstart.symm hle
    exact ⟨before, inside, after, rfl, LineMap.span_ofText before inside after⟩

/-- The span that covers two stretches, of which one comes behind the other, starts
with the one and stops with the other. -/
theorem StretchOf.merge (ha : a.StretchOf text) (hb : b.StretchOf text) (h : a.stop ≤ b.start) :
    (a.merge b).StretchOf text ∧ (a.merge b).start = a.start ∧ (a.merge b).stop = b.stop := by
  obtain ⟨haEnds, haStop⟩ := stretchOf_iff.1 ha
  obtain ⟨hbEnds, hbStop⟩ := stretchOf_iff.1 hb
  have hstart : (a.merge b).start = a.start := Nat.min_eq_left (Nat.le_trans haStop h)
  have hstop : (a.merge b).stop = b.stop := Nat.max_eq_right (Nat.le_trans h hbStop)
  refine ⟨stretchOf_iff.2 ⟨haEnds.merge hbEnds, ?_⟩, hstart, hstop⟩
  rw [hstart, hstop]
  exact Nat.le_trans haStop (Nat.le_trans h hbStop)

end Span

end EventLoop
