import EventLoop.Proofs.Peg.Attempts
import EventLoop.Proofs.Script.LeadingLines
import EventLoop.Proofs.Script.Readable
import EventLoop.Proofs.Source.Lines
import EventLoop.Step.Extract

/-!
# Where a text stops being a script

A text that is no script is refused at the furthest place where a rule has failed.  It is a place
of the text (`isBoundary_of_failure`), and the statements at the top of the text that have been read
until then are not behind it, because the end of the text was expected behind the last of them
(`parse_error_pointsBehind`).  Of such a text there is the step that says so, and nothing else.
-/

namespace EventLoop

open Script Peg

/-- A line and a column, counted from one, are those of the place behind a part of a text, and
so they are there: the line is one of the text, and the column one of its characters or the one
behind them. -/
structure PointsBehind (before text : List Char) (line column : Nat) : Prop where
  begins : before <+: text
  line_eq : line = before.count '\n' + 1
  column_eq : column = columnAfter before + 1
  line_le : line ≤ text.count '\n' + 1
  column_le : ∃ characters, (text.splitOn '\n')[line - 1]? = some characters ∧
    column ≤ characters.length + 1

theorem pointsBehind (before after : List Char) :
    PointsBehind before (before ++ after) (before.count '\n' + 1) (columnAfter before + 1) where
  begins := List.prefix_append before after
  line_eq := rfl
  column_eq := rfl
  line_le := by
    rw [List.count_append]
    omega
  column_le := by
    obtain ⟨characters, hline, hcolumn⟩ := exists_line before after
    exact ⟨characters, hline, Nat.succ_le_succ hcolumn⟩

/-- What is told of attempts at a place of a text. -/
theorem ofAttempts_eq {before : List Char} (after : List Char) {attempts : Attempts Rule}
    (h : attempts.offset = byteLength before) :
    ParseError.ofAttempts (.ofText (before ++ after)) attempts =
      .unexpected (before.count '\n' + 1) (columnAfter before + 1)
        (Rule.all.filter (· ∈ attempts.rules)) := by
  unfold ParseError.ofAttempts
  rw [h, LineMap.lineColumn_ofText]

/-- What is read of a text before it is refused: the statements at its top, one after the other,
as many as there are. -/
def ReadsStatements (text : List Char) (result : Match Rule) : Prop :=
  Matches grammar .spaced (.many (.rule .statement)) (skipLayout (.start text)) result

section Failure

variable {text : List Char} {attempts : Attempts Rule} (h : match? text = .failure attempts)

include h

/-- A text is refused at one of its places. -/
theorem isBoundary_of_failure : IsBoundary text attempts.offset := by
  have hconcludes := concludes_match text
  rw [h] at hconcludes
  have hzero : Reaches (.start text) 0 := ⟨.start text, .refl _, rfl⟩
  obtain ⟨place, ⟨before, htext, hoffset⟩, hattempts⟩ :=
    hconcludes.isPlace skips_grammar hzero (.refl _)
  exact ⟨before, place.rest, htext, hattempts.symm.trans (hoffset.trans (Nat.zero_add _))⟩

/-- A text is refused behind the statements that are read, or further on. -/
theorem exists_statements_of_failure :
    ∃ result, ReadsStatements text result ∧ result.stop.offset ≤ attempts.offset := by
  obtain ⟨outcome, hstatements, hmatch⟩ := exists_outcome text
  rw [h] at hmatch
  cases outcome with
  | success => contradiction
  | failure inner =>
      obtain rfl := Outcome.failure.inj hmatch
      obtain ⟨result, hresult, hle⟩ := exists_of_statements hstatements
      refine ⟨result, hresult, ?_⟩
      -- the end of the text has been tried behind the statements, and no attempt is forgotten
      rw [Attempts.offset_note, Attempts.offset_join]
      exact Nat.le_trans hle (Nat.le_trans (Nat.le_max_right _ _) (Nat.le_max_left _ _))

end Failure

/-- **Errors point into the text, and not before what was read.**  A text that is no script is
refused at a place of the text, of which the line and the column are told.  None of the
statements at the top of the text that are read goes beyond this place.  There is one step, an
error on the call stack at this line that shows the message, and there are no functions and no
values. -/
theorem parse_error_pointsBehind {source : String} {error : ParseError}
    (h : parse source = .error error) :
    ∃ line column expected before, error = .unexpected line column expected ∧
      PointsBehind before source.toList line column ∧
      (∃ result, ReadsStatements source.toList result ∧
        result.stop.offset ≤ byteLength before ∧
        ∀ tree ∈ result.trees, tree.rule = .statement ∧ tree.stop.offset ≤ byteLength before) ∧
      ∃ step, extractSource source = { steps := [step], functions := .empty, bindings := .empty } ∧
        step.kind = .error ∧ step.action = .error ∧ step.targetQueue = .callStack ∧
        step.sourceLine = line ∧ step.outputPayload = some error.message := by
  rcases parse_total source with ⟨attempts, hfailure, herror⟩ | ⟨_, _, _, _, -, hprogram, -⟩
  · obtain rfl := Except.error.inj (h.symm.trans herror)
    obtain ⟨before, after, htext, hoffset⟩ := isBoundary_of_failure hfailure
    obtain ⟨result, hresult, hstop⟩ := exists_statements_of_failure hfailure
    rw [hoffset] at hstop
    have hpoints := pointsBehind before after
    have htold := ofAttempts_eq after hoffset
    rw [← htext] at hpoints htold
    refine ⟨_, _, _, before, htold, hpoints, ⟨result, hresult, hstop, fun tree htree => ?_⟩, ?_⟩
    · obtain ⟨hrule, hleads⟩ :=
        hresult.leads_of_mem_many skips_grammar (by decide) (by decide) tree htree
      exact ⟨hrule, Nat.le_trans hleads.offset_le hstop⟩
    · refine ⟨_, by unfold extractSource; rw [h], rfl, rfl, rfl, ?_, rfl⟩
      rw [htold]
      rfl
  · exact nomatch h.symm.trans hprogram

/-- A call that breaks off on the second line, behind a declaration. -/
theorem parse_error_pointsBehind_call :
    let source := "let a = 1;\nfoo(1, ;"
    ∃ error line column expected before, parse source = .error error ∧
      error = .unexpected line column expected ∧
      PointsBehind before source.toList line column ∧
      ∃ result, ReadsStatements source.toList result ∧ result.stop.offset ≤ byteLength before := by
  intro source
  have hfails : (parse source).isOk = false := by decide +kernel
  cases hparse : parse source with
  | ok program =>
      rw [hparse] at hfails
      contradiction
  | error error =>
      obtain ⟨line, column, expected, before, htold, hpoints, ⟨result, hresult, hstop, -⟩, -⟩ :=
        parse_error_pointsBehind hparse
      exact ⟨error, line, column, expected, before, rfl, htold, hpoints, result, hresult, hstop⟩

end EventLoop
