import EventLoop.Proofs.Peg.Shift
import EventLoop.Proofs.Script.Founded

/-!
# Lines before a script

A line is silent if there are only blanks in it and perhaps a comment behind them.  Layout is
skipped over silent lines, so that what comes behind them is matched as if it stood alone,
only further on (`match?_success`, `match?_failure`).
-/

namespace EventLoop.Script

open Peg

/-! ## Skipping further on -/

/-- What is being skipped, so many bytes further on. -/
def Skipping.shift (bytes : Nat) : Skipping → Skipping
  | .blockComment start => .blockComment (start.shift bytes)
  | skipping => skipping

theorem skipFrom_shift (bytes : Nat) (skipping : Skipping) (offset : Nat) (text : List Char) :
    skipFrom (skipping.shift bytes) (offset + bytes) text =
      (skipFrom skipping offset text).shift bytes := by
  fun_induction skipFrom skipping offset text with
  | case1 start => rfl
  | case2 skipping offset hskipping =>
      cases skipping with
      | blockComment start => exact absurd rfl (hskipping start)
      | _ => rfl
  | case3 offset rest ih =>
      rw [← ih, Nat.add_right_comm]
      change skipFrom .blanks (offset + bytes) ('/' :: '/' :: rest) = _
      rw [skipFrom]
      rfl
  | case4 offset rest ih =>
      rw [← ih, Nat.add_right_comm]
      change skipFrom .blanks (offset + bytes) ('/' :: '*' :: rest) = _
      rw [skipFrom]
      rfl
  | case5 offset c rest hline hblock hblank ih =>
      rw [← ih, Nat.add_right_comm]
      change skipFrom .blanks (offset + bytes) (c :: rest) = _
      rw [skipFrom, if_pos hblank]
      · rfl
      · exact hline
      · exact hblock
  | case6 offset c rest hline hblock hblank =>
      change skipFrom .blanks (offset + bytes) (c :: rest) = _
      rw [skipFrom, if_neg hblank]
      · rfl
      · exact hline
      · exact hblock
  | case7 offset c rest ih =>
      rw [← ih, Nat.add_right_comm]
      change skipFrom .lineComment (offset + bytes) (c :: rest) = _
      rw [skipFrom]
      split <;> rfl
  | case8 start offset rest ih =>
      rw [← ih, Nat.add_right_comm]
      change skipFrom (.blockComment (start.shift bytes)) (offset + bytes) ('*' :: '/' :: rest) = _
      rw [skipFrom]
      rfl
  | case9 start offset c rest hopen ih =>
      rw [← ih, Nat.add_right_comm]
      change skipFrom (.blockComment (start.shift bytes)) (offset + bytes) (c :: rest) = _
      rw [skipFrom]
      · rfl
      · exact hopen
/-- Layout is skipped in the same way further on. -/
theorem movable_grammar (bytes : Nat) : grammar.Movable bytes :=
  fun cursor => skipFrom_shift bytes .blanks cursor.offset cursor.rest

/-! ## Silent lines -/

/-- Whether a line has only blanks, and perhaps a comment behind them. -/
def isSilent : List Char → Bool
  | [] => true
  | '/' :: '/' :: comment => comment.all fun c => !isLineEnd c
  | c :: rest => (c = ' ' || c = '\t') && isSilent rest

theorem skipFrom_comment (rest : List Char) {comment : List Char}
    (h : (comment.all fun c => !isLineEnd c) = true) :
    ∀ offset : Nat, skipFrom .lineComment offset (comment ++ '\n' :: rest) =
      skipFrom .blanks (offset + byteLength (comment ++ ['\n'])) rest := by
  induction comment with
  | nil => exact fun _ => rfl
  | cons c comment ih =>
      intro offset
      obtain ⟨hc, hcomment⟩ := Bool.and_eq_true_iff.1 h
      have hline : isLineEnd c = false := Bool.not_eq_true' _ |>.mp hc
      rw [List.cons_append, skipFrom, hline, if_neg Bool.false_ne_true, ih hcomment,
        List.cons_append, byteLength, Nat.add_assoc]

/-- A silent line is skipped with its end. -/
theorem skipFrom_silent (rest line : List Char) (h : isSilent line = true) :
    ∀ offset : Nat, skipFrom .blanks offset (line ++ '\n' :: rest) =
      skipFrom .blanks (offset + byteLength (line ++ ['\n'])) rest := by
  fun_induction isSilent line with
  | case1 => exact fun _ => rfl
  | case2 comment =>
      intro offset
      have hlength : offset + byteLength ('/' :: '/' :: comment ++ ['\n']) =
          offset + 2 + byteLength (comment ++ ['\n']) := by
        rw [List.cons_append, List.cons_append, byteLength, byteLength, ← Nat.add_assoc,
          ← Nat.add_assoc]
        rfl
      rw [hlength, List.cons_append, List.cons_append, skipFrom, skipFrom_comment rest h]
  | case3 c line hcomment ih =>
      intro offset
      obtain ⟨hc, hline⟩ := Bool.and_eq_true_iff.1 h
      have hblank : isLayoutBlank c = true := by
        unfold isLayoutBlank
        rw [hc, Bool.true_or, Bool.true_or]
      have hslash : c ≠ '/' := by
        rintro rfl
        contradiction
      rw [List.cons_append, skipFrom, if_pos hblank, ih hline, List.cons_append, byteLength,
        Nat.add_assoc]
      · exact fun _ heq => absurd heq hslash
      · exact fun _ heq => absurd heq hslash

/-- What a script does not notice before it. -/
structure Silent (before : List Char) : Prop where
  endsLine : EndsLine before
  skipped : ∀ (text : List Char) (offset : Nat),
    skipFrom .blanks offset (before ++ text) = skipFrom .blanks (offset + byteLength before) text

/-- Some lines, each with a line feed at its end. -/
def textOfLines : List String → String
  | [] => ""
  | line :: lines => line ++ "\n" ++ textOfLines lines

theorem toList_textOfLines_cons (line : String) (lines : List String) :
    (textOfLines (line :: lines)).toList =
      line.toList ++ '\n' :: (textOfLines lines).toList := by
  rw [textOfLines, String.toList_append, String.toList_append, List.append_assoc]
  rfl

theorem silent_lines {lines : List String} (h : ∀ line ∈ lines, isSilent line.toList = true) :
    Silent (textOfLines lines).toList := by
  induction lines with
  | nil => exact ⟨.inl rfl, fun _ _ => rfl⟩
  | cons line lines ih =>
      obtain ⟨hline, hlines⟩ := List.forall_mem_cons.1 h
      have hrest := ih hlines
      rw [toList_textOfLines_cons, List.append_cons]
      refine ⟨?_, fun text offset => ?_⟩
      · rcases hrest.endsLine with hnone | ⟨earlier, hlast⟩
        · exact .inr ⟨line.toList, by rw [hnone, List.append_nil]⟩
        · exact .inr ⟨line.toList ++ ['\n'] ++ earlier, by rw [hlast, List.append_assoc _ earlier]⟩
      · rw [List.append_assoc, List.append_assoc, List.singleton_append,
          skipFrom_silent _ _ hline, hrest.skipped, byteLength_append _ (textOfLines lines).toList,
          Nat.add_assoc]

theorem count_silent {line : List Char} (h : isSilent line = true) : line.count '\n' = 0 := by
  fun_induction isSilent line with
  | case1 => rfl
  | case2 comment =>
      refine List.count_eq_zero.2 fun hmem => ?_
      rcases List.mem_cons.1 hmem with hslash | hmem
      · contradiction
      · rcases List.mem_cons.1 hmem with hslash | hmem
        · contradiction
        · exact absurd (List.all_eq_true.1 h _ hmem) (by decide)
  | case3 c line _ ih =>
      obtain ⟨hc, hline⟩ := Bool.and_eq_true_iff.1 h
      have hfeed : c ≠ '\n' := by
        rintro rfl
        contradiction
      rw [List.count_cons_of_ne hfeed, ih hline]

/-- As many lines are left behind as there are. -/
theorem lines_silent {lines : List String} (h : ∀ line ∈ lines, isSilent line.toList = true) :
    (Shift.behind (textOfLines lines).toList).lines = lines.length := by
  change (textOfLines lines).toList.count '\n' = lines.length
  induction lines with
  | nil => rfl
  | cons line lines ih =>
      obtain ⟨hline, hlines⟩ := List.forall_mem_cons.1 h
      rw [toList_textOfLines_cons, List.count_append, count_silent hline, List.count_cons_self,
        ih hlines, Nat.zero_add, List.length_cons]

/-! ## Matching behind silent lines -/

/-- What a script consists of. -/
def statements : Peg.Expr Rule :=
  .seq (.many (.rule .statement)) (.rule .endOfInput)

/-- A script begins behind the layout at its start. -/
theorem concludes_textStart (place : Cursor) :
    Concludes grammar .spaced textStart place (.success {} place []) :=
  .text .spaced [] place

theorem concludes_program {place : Cursor} {outcome : Outcome Rule}
    (h : Concludes grammar .spaced statements (skipLayout place) outcome) :
    Concludes grammar .spaced (.rule .program) place
      ((outcome.after {} []).recorded .program place) := by
  have hbody : Concludes grammar .spaced (grammar.body .program) place (outcome.after {} []) :=
    .seq (concludes_textStart place) h
  change Concludes grammar .spaced (.rule .program) place
    (grammar.report .spaced .program place (outcome.after {} []))
  exact .rule hbody

theorem exists_outcome (text : List Char) :
    ∃ outcome, Concludes grammar .spaced statements (skipLayout (.start text)) outcome ∧
      match? text = (outcome.after {} []).recorded .program (.start text) := by
  have hmatch := concludes_match text
  generalize match? text = result at hmatch
  cases hmatch with
  | rule hbody =>
      cases hbody with
      | seqRefused h => exact nomatch h.unique (concludes_textStart _)
      | seq h hrest =>
          obtain ⟨rfl, rfl, rfl⟩ := Outcome.success.inj (h.unique (concludes_textStart _))
          exact ⟨_, hrest, rfl⟩

/-- Where the statements of a script end in vain, the end of the text was expected behind those
that have been read. -/
theorem exists_of_statements {place : Cursor} {attempts : Attempts Rule}
    (h : Concludes grammar .spaced statements place (.failure attempts)) :
    ∃ result, Matches grammar .spaced (.many (.rule .statement)) place result ∧
      result.stop.offset ≤ attempts.offset := by
  generalize hfailure : Outcome.failure attempts = outcome at h
  cases h with
  | seqRefused h => exact absurd h.derives Derives.not_many
  | @seq _ _ _ _ stop _ trees last h hend =>
      cases last with
      | success => contradiction
      | failure last =>
          obtain rfl := Outcome.failure.inj hfailure
          have hskip := (skips_grammar.skip .spaced stop).offset_le
          have hle := hend.offset_le (by decide)
          refine ⟨⟨stop, trees⟩, h.matches, ?_⟩
          rw [Attempts.offset_join]
          exact Nat.le_trans hskip (Nat.le_trans hle (Nat.le_max_right _ _))

theorem offset_le_of_statements {place : Cursor} {attempts : Attempts Rule}
    (h : Concludes grammar .spaced statements place (.failure attempts)) :
    place.offset ≤ attempts.offset := by
  obtain ⟨result, hresult, hle⟩ := exists_of_statements h
  exact Nat.le_trans (hresult.leads skips_grammar).offset_le hle

section Behind

variable {before text : List Char} (h : Silent before)

include h

theorem skipLayout_behind (text : List Char) :
    skipLayout (.start (before ++ text)) =
      (skipLayout (.start text)).shift (Shift.behind before).bytes := by
  calc
    skipFrom .blanks 0 (before ++ text)
    _ = skipFrom .blanks (0 + byteLength before) text := h.skipped text 0
    _ = _ := skipFrom_shift (byteLength before) .blanks 0 text

/-- The outcomes of a text and of the same text behind silent lines. -/
theorem exists_outcomes (text : List Char) :
    ∃ outcome later : Outcome Rule, outcome.Shifted (Shift.behind before).bytes later ∧
      Concludes grammar .spaced statements
        ((skipLayout (.start text)).shift (Shift.behind before).bytes) later ∧
      match? text = (outcome.after {} []).recorded .program (.start text) ∧
      match? (before ++ text) =
        (later.after {} []).recorded .program (.start (before ++ text)) := by
  obtain ⟨outcome, houtcome, hmatch⟩ := exists_outcome text
  obtain ⟨later, hlater, hshifted⟩ := houtcome.shift (movable_grammar _)
  refine ⟨outcome, later, hshifted, hlater, hmatch, ?_⟩
  rw [← skipLayout_behind h] at hlater
  exact (concludes_match _).unique (concludes_program hlater)

/-- A script behind silent lines has the same tree, further on. -/
theorem match?_success {attempts : Attempts Rule} {stop : Cursor} {trees : List (Peg.Tree Rule)}
    (hmatch : match? text = .success attempts stop trees) :
    ∃ later children, trees = [.node .program (.start text) stop children] ∧
      match? (before ++ text) = .success later (stop.shift (Shift.behind before).bytes)
        [.node .program (.start (before ++ text)) (stop.shift (Shift.behind before).bytes)
          (Tree.shiftAll (Shift.behind before).bytes children)] := by
  obtain ⟨outcome, later, hshifted, -, hfirst, hsecond⟩ := exists_outcomes h text
  rw [hmatch] at hfirst
  cases hshifted with
  | failure => contradiction
  | success _ last children =>
      obtain ⟨-, rfl, rfl⟩ := Outcome.success.inj hfirst
      exact ⟨_, children, rfl, hsecond⟩

/-- A text that is no script is none behind silent lines, and it fails further on. -/
theorem match?_failure {attempts : Attempts Rule} (hmatch : match? text = .failure attempts) :
    ∃ later, match? (before ++ text) = .failure later ∧
      later.offset = attempts.offset + (Shift.behind before).bytes := by
  obtain ⟨outcome, later, hshifted, hlater, hfirst, hsecond⟩ := exists_outcomes h text
  rw [hmatch] at hfirst
  cases hshifted with
  | success => contradiction
  | @failure inner laterInner hmoved =>
      obtain rfl := Outcome.failure.inj hfirst
      -- a rule has failed behind the lines, so that the start of the text is out of play
      have hle := offset_le_of_statements hlater
      have hoffset := hmoved.eq_add (Nat.le_trans (Nat.le_add_left _ _) hle)
      refine ⟨_, hsecond, ?_⟩
      rw [Attempts.offset_note, Attempts.offset_note, Attempts.offset_join, Attempts.offset_join,
        hoffset]
      simp [Cursor.start]

end Behind

end EventLoop.Script
