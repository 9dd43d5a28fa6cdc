import EventLoop.Proofs.Source.Stretch

/-!
# Texts behind other texts

Where a text comes to stand behind another one, its places have later offsets, and if the
text before it ends with a line feed, its lines are numbered on from there, with the columns
that they had.  `Shift` says by how many bytes and lines.

The three things that are done with places and spans do not notice: reading on from a place,
taking the text between two places, and merging spans.  Looking up the place in the lines of
the whole text gives what looking it up in those of the text alone gives, but for the shift
(`LineMap.span_shift`).
-/

namespace EventLoop

/-- How far a text is moved: by so many bytes and lines. -/
structure Shift where
  bytes : Nat
  lines : Nat

/-! ## Places -/

namespace Cursor

/-- A place that is so many bytes further on, with the same text behind it. -/
def shift (bytes : Nat) (cursor : Cursor) : Cursor :=
  ⟨cursor.offset + bytes, cursor.rest⟩

variable (bytes : Nat)

@[simp]
theorem shift_offset (cursor : Cursor) : (cursor.shift bytes).offset = cursor.offset + bytes := rfl

@[simp]
theorem shift_rest (cursor : Cursor) : (cursor.shift bytes).rest = cursor.rest := rfl

theorem drop?_shift (characters : List Char) (cursor : Cursor) :
    (cursor.shift bytes).drop? characters = (cursor.drop? characters).map (shift bytes) := by
  induction characters generalizing cursor with
  | nil => rfl
  | cons c characters ih =>
      obtain ⟨offset, rest⟩ := cursor
      cases rest with
      | nil => rfl
      | cons d rest =>
          have hbehind : (⟨offset + bytes + d.utf8Size, rest⟩ : Cursor) =
              shift bytes ⟨offset + d.utf8Size, rest⟩ := by
            rw [shift, Nat.add_right_comm]
          rw [shift, drop?, drop?, hbehind, ih]
          split <;> rfl

theorem next?_shift (accepts : Char → Bool) (cursor : Cursor) :
    (cursor.shift bytes).next? accepts = (cursor.next? accepts).map (shift bytes) := by
  obtain ⟨offset, rest⟩ := cursor
  cases rest with
  | nil => rfl
  | cons c rest =>
      rw [shift, next?, next?, Nat.add_right_comm]
      split <;> rfl

/-- The text between two places is still there. -/
@[simp]
theorem textTo_shift (cursor stop : Cursor) :
    (cursor.shift bytes).textTo (stop.shift bytes) = cursor.textTo stop := by
  rw [textTo, textTo, shift_offset, shift_offset, shift_rest, Nat.add_sub_add_right]

end Cursor

/-! ## Spans -/

namespace Span

/-- A span that is so far further on. -/
def shift (d : Shift) (span : Span) : Span :=
  { span with
    start := span.start + d.bytes
    stop := span.stop + d.bytes
    startLine := span.startLine + d.lines
    stopLine := span.stopLine + d.lines }

@[simp]
theorem line_shift (d : Shift) (span : Span) : (span.shift d).line = span.line + d.lines :=
  Nat.add_right_comm _ _ _

/-- The span that covers two spans moves with them. -/
theorem merge_shift (d : Shift) (a b : Span) :
    (a.shift d).merge (b.shift d) = (a.merge b).shift d := by
  have hstart : min (a.start + d.bytes) (b.start + d.bytes) = min a.start b.start + d.bytes :=
    Nat.add_min_add_right _ _ _
  have hstop : max (a.stop + d.bytes) (b.stop + d.bytes) = max a.stop b.stop + d.bytes :=
    Nat.add_max_add_right _ _ _
  unfold merge shift
  dsimp only
  rw [hstart, hstop]
  simp only [Nat.add_le_add_iff_right]
  split <;> split <;> rfl

end Span

/-! ## Lines -/

/-- A line that starts so many bytes further on. -/
def Line.shift (bytes : Nat) (line : Line) : Line :=
  { line with start := line.start + bytes }

namespace LineMap

/-- Lines that start so many bytes further on. -/
def shift (bytes : Nat) (map : LineMap) : LineMap :=
  ⟨map.first.shift bytes, map.rest.map (Line.shift bytes)⟩

theorem ofTextAt_shift (bytes : Nat) (text : List Char) :
    ∀ offset : Nat, ofTextAt (offset + bytes) text = (ofTextAt offset text).shift bytes := by
  induction text with
  | nil => exact fun _ => rfl
  | cons c text ih =>
      intro offset
      rw [ofTextAt, ofTextAt, Nat.add_right_comm, ih]
      split <;> rfl

/-- Looking up a later place in lines that start later, from a later number on. -/
theorem lineFrom_shift (d : Shift) (offset : Nat) (rest : List Line) :
    ∀ (number : Nat) (line : Line),
      lineFrom (number + d.lines) (line.shift d.bytes) (offset + d.bytes)
          (rest.map (Line.shift d.bytes)) =
        ((lineFrom number line offset rest).1 + d.lines,
          (lineFrom number line offset rest).2.shift d.bytes) := by
  induction rest with
  | nil => exact fun _ _ => rfl
  | cons next rest ih =>
      intro number line
      have hnext : ((next.shift d.bytes).start ≤ offset + d.bytes) = (next.start ≤ offset) :=
        propext Nat.add_le_add_iff_right
      rw [List.map_cons, lineFrom, lineFrom, Nat.add_right_comm]
      simp only [hnext]
      split
      · exact ih (number + 1) next
      · rfl

/-- Behind a line feed, the lines up to it are counted and left behind. -/
theorem lineFrom_behind (before text : List Char) :
    ∀ {start offset : Nat}, start + byteLength (before ++ ['\n']) ≤ offset →
      ∀ (number : Nat) (line : Line),
        let map := ofTextAt (start + byteLength (before ++ ['\n'])) text
        lineFrom number line offset (ofTextAt start (before ++ '\n' :: text)).rest =
          lineFrom (number + (before ++ ['\n']).count '\n') map.first offset map.rest := by
  induction before with
  | nil =>
      intro start offset hle number line
      have hfirst := start_first_ofTextAt (start + '\n'.utf8Size) text
      change start + '\n'.utf8Size ≤ offset at hle
      change lineFrom number line offset (ofTextAt start ('\n' :: text)).rest = _
      rw [ofTextAt, if_pos rfl, lineFrom, if_pos (Nat.le_trans (Nat.le_of_eq hfirst) hle)]
      rfl
  | cons c before ih =>
      intro start offset hle number line
      have hlength : start + byteLength (c :: before ++ ['\n']) =
          start + c.utf8Size + byteLength (before ++ ['\n']) := by
        rw [List.cons_append, byteLength, Nat.add_assoc]
      rw [hlength] at hle
      have hrest := ih hle
      dsimp only at hrest ⊢
      rw [hlength, List.cons_append, List.cons_append, ofTextAt]
      by_cases hfeed : c = '\n'
      · subst hfeed
        have hfirst := start_first_ofTextAt (start + '\n'.utf8Size) (before ++ '\n' :: text)
        have hstart : start + '\n'.utf8Size ≤ offset := by omega
        rw [if_pos rfl, lineFrom, if_pos (Nat.le_trans (Nat.le_of_eq hfirst) hstart), hrest,
          List.count_cons_self, Nat.add_assoc, Nat.add_comm 1]
      · rw [if_neg hfeed, hrest, List.count_cons_of_ne hfeed]

end LineMap

/-- A text ends with a line feed, unless there is nothing of it. -/
def EndsLine (before : List Char) : Prop :=
  before = [] ∨ ∃ earlier, before = earlier ++ ['\n']

/-- How far a text is moved that comes to stand behind another one. -/
def Shift.behind (before : List Char) : Shift :=
  ⟨byteLength before, before.count '\n'⟩

namespace LineMap

/-- A place of a text behind other lines has a later line and the same column. -/
theorem lineColumn_shift {before : List Char} (h : EndsLine before) (text : List Char)
    (offset : Nat) :
    (ofText (before ++ text)).lineColumn (offset + (Shift.behind before).bytes) =
      (((ofText text).lineColumn offset).1 + (Shift.behind before).lines,
        ((ofText text).lineColumn offset).2) := by
  rcases h with rfl | ⟨earlier, rfl⟩
  · rfl
  · let d := Shift.behind (earlier ++ ['\n'])
    let map := ofText text
    let whole := ofText (earlier ++ '\n' :: text)
    have hle : 0 + d.bytes ≤ offset + d.bytes := by
      omega
    have hmap : ofTextAt (0 + d.bytes) text = map.shift d.bytes := ofTextAt_shift d.bytes text 0
    have hfound : lineFrom 0 whole.first (offset + d.bytes) whole.rest =
        ((lineFrom 0 map.first offset map.rest).1 + d.lines,
          (lineFrom 0 map.first offset map.rest).2.shift d.bytes) := by
      calc
        lineFrom 0 whole.first (offset + d.bytes) whole.rest
        _ = lineFrom (0 + d.lines) (ofTextAt (0 + d.bytes) text).first (offset + d.bytes)
              (ofTextAt (0 + d.bytes) text).rest := lineFrom_behind earlier text hle 0 _
        _ = lineFrom (0 + d.lines) (map.first.shift d.bytes) (offset + d.bytes)
              (map.rest.map (Line.shift d.bytes)) := by rw [hmap]; rfl
        _ = _ := lineFrom_shift d offset map.rest 0 map.first
    rw [List.append_assoc, List.singleton_append]
    change (_, columnOf _ _) = _
    rw [hfound]
    dsimp only [Line.shift]
    rw [Nat.add_sub_add_right]
    rfl

/-- The span between two places of a text that stands behind other lines. -/
theorem span_shift {before : List Char} (h : EndsLine before) (text : List Char)
    (start stop : Nat) :
    (ofText (before ++ text)).span (start + (Shift.behind before).bytes)
        (stop + (Shift.behind before).bytes) =
      ((ofText text).span start stop).shift (.behind before) := by
  unfold span
  rw [lineColumn_shift h, lineColumn_shift h]
  rfl

end LineMap

end EventLoop
