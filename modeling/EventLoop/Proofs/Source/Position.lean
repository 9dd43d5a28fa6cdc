import EventLoop.Proofs.Source.Stretch
import Mathlib.Data.Prod.Lex
import Mathlib.Order.Monotone.Defs

/-!
# The order of the places of a text

The lines of a text start one behind the other, and an offset is on the last of those that start
no later, whether it is the start of this line or not (`LineMap.lineColumn_eq_countP`).

Further on in a text the line is a later one, or it is the same line and the column is a later
one (`LineMap.strictMonoOn_lineColumn`).  So a place can be told from its line and column as
well as from its offset, and it is the same to order places by the one or by the other.

A span covers another one if it starts no later and stops no earlier.  A span with its ends in
a text is known by these ends, and the ends of merged spans are the first and the last of theirs.
So merging gives the least span of the text that covers both (`Span.isLeastCover_iff`), and the
laws of merging are those of the lesser and the greater of two numbers.
-/

namespace EventLoop

/-! ## Lines -/

namespace LineMap

/-- The lines of a text, from the first to the last. -/
def lines (map : LineMap) : List Line :=
  map.first :: map.rest

/-- Every line starts behind those before it. -/
theorem pairwise_lines_ofTextAt (text : List Char) :
    ∀ offset : Nat, (ofTextAt offset text).lines.Pairwise (·.start < ·.start) := by
  induction text with
  | nil => exact fun offset => List.pairwise_singleton _ _
  | cons c text ih =>
      intro offset
      have hfirst := start_first_ofTextAt offset (c :: text)
      refine List.pairwise_cons.2 ⟨fun line hline => ?_, ?_⟩
      · rw [hfirst]
        exact le_start_ofTextAt (c :: text) offset line hline
      · rw [ofTextAt]
        split
        · exact ih (offset + c.utf8Size)
        · exact (List.pairwise_cons.1 (ih (offset + c.utf8Size))).2

/-- The lines that start no later than an offset are passed, and no others. -/
theorem lineFrom_eq_countP {offset : Nat} {lines : List Line}
    (h : lines.Pairwise (·.start < ·.start)) :
    ∀ (number : Nat) (line : Line),
      (lineFrom number line offset lines).1 = number + lines.countP (·.start ≤ offset) := by
  induction lines with
  | nil => exact fun _ _ => rfl
  | cons next rest ih =>
      obtain ⟨hnext, hrest⟩ := List.pairwise_cons.1 h
      intro number line
      rw [lineFrom]
      split
      next hle => rw [ih hrest, List.countP_cons_of_pos (by simpa using hle), Nat.add_assoc,
          Nat.add_comm 1]
      next hlt =>
        -- the lines behind this one start even later
        have hnone : (next :: rest).countP (·.start ≤ offset) = 0 := by
          refine List.countP_eq_zero.2 fun later hlater => ?_
          rcases List.mem_cons.1 hlater with rfl | hlater
          · simpa using hlt
          · have hbehind := hnext later hlater
            simp only [decide_eq_true_eq]
            omega
        rw [hnone, Nat.add_zero]

/-- An offset is on the last of the lines that start no later. -/
theorem lineColumn_eq_countP (text : List Char) (offset : Nat) :
    ((ofText text).lineColumn offset).1 + 1 =
      (ofText text).lines.countP (·.start ≤ offset) := by
  have hfirst : (ofText text).first.start ≤ offset := by
    rw [ofText, start_first_ofTextAt]
    exact Nat.zero_le _
  have hrest := (List.pairwise_cons.1 (pairwise_lines_ofTextAt text 0)).2
  have hnumber : ((ofText text).lineColumn offset).1 =
      0 + (ofText text).rest.countP (·.start ≤ offset) :=
    lineFrom_eq_countP hrest 0 (ofText text).first
  rw [hnumber, Nat.zero_add, lines, List.countP_cons_of_pos (by simpa using hfirst)]

end LineMap

/-! ## Lines and columns -/

theorem columnAfter_append_of_not_mem (before : List Char) {inside : List Char}
    (h : '\n' ∉ inside) : columnAfter (before ++ inside) = columnAfter before + inside.length := by
  unfold columnAfter
  rw [List.reverse_append, takeWhile_reverse_append h, List.length_append, List.length_reverse,
    Nat.add_comm]

/-- Reading on leads to a later line, or to a later column of the same line. -/
theorem position_lt (before : List Char) {inside : List Char} (h : inside ≠ []) :
    toLex (before.count '\n', columnAfter before) <
      toLex ((before ++ inside).count '\n', columnAfter (before ++ inside)) := by
  rw [Prod.Lex.toLex_lt_toLex, List.count_append]
  dsimp only
  by_cases hfeed : '\n' ∈ inside
  · have hpos := List.count_pos_iff.2 hfeed
    exact .inl (by omega)
  · rw [List.count_eq_zero.2 hfeed, columnAfter_append_of_not_mem before hfeed]
    have hpos := List.length_pos_iff.2 h
    exact .inr ⟨rfl, by omega⟩

namespace LineMap

/-- The line and column of a place grow with its offset. -/
theorem strictMonoOn_lineColumn (text : List Char) :
    StrictMonoOn (fun offset => toLex ((ofText text).lineColumn offset))
      {offset | IsBoundary text offset} := by
  rintro _ ⟨before, others, hfirst, rfl⟩ _ ⟨whole, after, rfl, rfl⟩ hlt
  -- the later place is reached from the earlier one by reading the text between them
  obtain ⟨inside, rfl⟩ := Span.StretchOf.exists_between hfirst.symm (Nat.le_of_lt hlt)
  have hsome : inside ≠ [] := by
    rintro rfl
    rw [List.append_nil] at hlt
    exact Nat.lt_irrefl _ hlt
  dsimp only
  rw [lineColumn_start, lineColumn_ofText]
  exact position_lt before hsome

end LineMap

/-! ## Spans that cover others -/

namespace Span

/-- A span starts no later than another one and stops no earlier. -/
structure Covers (outer inner : Span) : Prop where
  start_le : outer.start ≤ inner.start
  stop_le : inner.stop ≤ outer.stop

/-- A span of a text covers two others, and every span that covers both covers it. -/
structure IsLeastCover (text : List Char) (a b whole : Span) : Prop where
  endsIn : whole.EndsIn text
  left : whole.Covers a
  right : whole.Covers b
  least : ∀ outer : Span, outer.Covers a → outer.Covers b → outer.Covers whole

variable {text : List Char} {a b c : Span}

namespace EndsIn

/-- Spans of one text that cover each other are the same. -/
theorem covers_antisymm (ha : a.EndsIn text) (hb : b.EndsIn text) (h : a.Covers b)
    (hback : b.Covers a) : a = b :=
  ha.ext hb (Nat.le_antisymm h.start_le hback.start_le) (Nat.le_antisymm hback.stop_le h.stop_le)

theorem merge_comm (ha : a.EndsIn text) (hb : b.EndsIn text) : a.merge b = b.merge a :=
  (ha.merge hb).ext (hb.merge ha) (Nat.min_comm ..) (Nat.max_comm ..)

theorem merge_assoc (ha : a.EndsIn text) (hb : b.EndsIn text) (hc : c.EndsIn text) :
    (a.merge b).merge c = a.merge (b.merge c) :=
  ((ha.merge hb).merge hc).ext (ha.merge (hb.merge hc)) (Nat.min_assoc ..) (Nat.max_assoc ..)

theorem merge_self (ha : a.EndsIn text) : a.merge a = a :=
  (ha.merge ha).ext ha (Nat.min_self _) (Nat.max_self _)

theorem isLeastCover_merge (ha : a.EndsIn text) (hb : b.EndsIn text) :
    IsLeastCover text a b (a.merge b) where
  endsIn := ha.merge hb
  left := ⟨Nat.min_le_left .., Nat.le_max_left ..⟩
  right := ⟨Nat.min_le_right .., Nat.le_max_right ..⟩
  least _ hleft hright :=
    ⟨Nat.le_min.2 ⟨hleft.start_le, hright.start_le⟩, Nat.max_le.2 ⟨hleft.stop_le, hright.stop_le⟩⟩

end EndsIn

/-- Merging gives the least span that covers both, and no other one is. -/
theorem isLeastCover_iff (ha : a.EndsIn text) (hb : b.EndsIn text) {whole : Span} :
    IsLeastCover text a b whole ↔ whole = a.merge b := by
  have hmerge := ha.isLeastCover_merge hb
  constructor
  · intro h
    exact h.endsIn.covers_antisymm hmerge.endsIn (hmerge.least whole h.left h.right)
      (h.least _ hmerge.left hmerge.right)
  · rintro rfl
    exact hmerge

end Span

/-- **Places are told by lines and columns, and spans are merged by their ends.**  In any text an
offset is on the last line that starts no later.  A place is on the line whose number is that of
the line feeds before it, and in the column that is the number of characters since the last of
them.  Line and column grow with the offset, so that no two places have the same.  For spans with
their ends in the text, merging does not depend on order or grouping, it changes nothing between a
span and itself, and it gives the least span of the text that covers both. -/
theorem places_ordered_spans_merged (text : List Char) :
    let map := LineMap.ofText text
    (∀ offset, (map.lineColumn offset).1 + 1 = map.lines.countP (·.start ≤ offset)) ∧
      (∀ before after, text = before ++ after →
        map.lineColumn (byteLength before) = (before.count '\n', columnAfter before)) ∧
      StrictMonoOn (fun offset => toLex (map.lineColumn offset)) {offset | IsBoundary text offset} ∧
      Set.InjOn map.lineColumn {offset | IsBoundary text offset} ∧
      ∀ a b : Span, a.EndsIn text → b.EndsIn text →
        a.merge b = b.merge a ∧ a.merge a = a ∧
          (∀ c : Span, c.EndsIn text → (a.merge b).merge c = a.merge (b.merge c)) ∧
          ∀ whole, Span.IsLeastCover text a b whole ↔ whole = a.merge b := by
  intro map
  have hmono := LineMap.strictMonoOn_lineColumn text
  refine ⟨LineMap.lineColumn_eq_countP text, ?_, hmono, ?_, ?_⟩
  · rintro before after rfl
    exact LineMap.lineColumn_ofText before after
  · intro first hfirst second hsecond heq
    exact hmono.injOn hfirst hsecond (congrArg toLex heq)
  · intro a b ha hb
    exact ⟨ha.merge_comm hb, ha.merge_self, fun c hc => ha.merge_assoc hb hc,
      fun whole => Span.isLeastCover_iff ha hb⟩

/-- Two spans that overlap, in a text with letters of two bytes and an empty line. -/
theorem places_ordered_spans_merged_overlap :
    let text := "é\n\nλx".toList
    let map := LineMap.ofText text
    let early := map.span 0 3
    let late := map.span 2 6
    IsBoundary text 4 ∧ IsBoundary text 6 ∧ toLex (map.lineColumn 4) < toLex (map.lineColumn 6) ∧
      late.EndsIn text ∧ early.EndsIn text ∧ late.merge early = ⟨0, 6, 0, 0, 2, 1⟩ ∧
      Span.IsLeastCover text late early (late.merge early) := by
  intro text map early late
  have hstart : IsBoundary text 0 := ⟨[], text, rfl, rfl⟩
  have hletter : IsBoundary text 2 := ⟨['é'], "\n\nλx".toList, by decide, by decide⟩
  have hline : IsBoundary text 3 := ⟨"é\n".toList, "\nλx".toList, by decide, by decide⟩
  have hempty : IsBoundary text 4 := ⟨"é\n\n".toList, "λx".toList, by decide, by decide⟩
  have hlast : IsBoundary text 6 := ⟨"é\n\nλ".toList, ['x'], by decide, by decide⟩
  have hearly : early.EndsIn text := ⟨0, 3, hstart, hline, rfl⟩
  have hlate : late.EndsIn text := ⟨2, 6, hletter, hlast, rfl⟩
  obtain ⟨-, -, hmono, -, hmerge⟩ := places_ordered_spans_merged text
  obtain ⟨-, -, -, hleast⟩ := hmerge late early hlate hearly
  exact ⟨hempty, hlast, hmono hempty hlast (by decide), hlate, hearly, by decide,
    (hleast _).2 rfl⟩

end EventLoop
