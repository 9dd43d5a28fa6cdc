import EventLoop.Proofs.Script.Behind
import EventLoop.Proofs.Step.Shift

/-!
# Lines before a script

Lines before a script that have only blanks and comments in them make no steps, and move the
steps of the script down (`extractSource_belowLines`).
-/

namespace EventLoop

open Script

/-- **Leading lines only move steps down.**  Behind lines with nothing but blanks and comments, a
script makes the same steps, functions and values, each of them as many lines further down.  A
text that is no script is none there either, and its only step says so as many lines further
down. -/
theorem extractSource_belowLines {lines : List String}
    (h : ∀ line ∈ lines, isSilent line.toList = true) (source : String) :
    let later := textOfLines lines ++ source
    (∀ program, parse source = .ok program →
        (parse later).isOk = true ∧
          extractSource later = (extractSource source).lower lines.length) ∧
      ∀ error, parse source = .error error →
        ∃ laterError, parse later = .error laterError ∧
          extractSource source = { steps := [.ofParseError error.message error.span.line] } ∧
          extractSource later =
            { steps := [.ofParseError laterError.message (error.span.line + lines.length)] } := by
  intro later
  have hsilent := silent_lines h
  have hlater : later.toList = (textOfLines lines).toList ++ source.toList := String.toList_append
  refine ⟨fun program hparse => ?_, fun error hparse => ?_⟩
  · obtain ⟨further, hfurther, hbody⟩ := parse_behind hsilent hlater hparse
    have hextract := extract_shift hbody
    rw [lines_silent h] at hextract
    unfold extractSource
    rw [hfurther, hparse]
    exact ⟨rfl, hextract⟩
  · obtain ⟨further, hfurther, hline⟩ := parse_error_behind hsilent hlater hparse
    rw [lines_silent h] at hline
    refine ⟨further, hfurther, ?_, ?_⟩
    · unfold extractSource
      rw [hparse]
    · unfold extractSource
      rw [hfurther, ← hline]

/-- An empty line, one of blanks and a comment before a script, and before a text that is
none. -/
theorem extractSource_belowLines_three :
    let lines := ["", " \t", "// é"]
    let script := "function f(a) {}\nf(1);"
    let text := "f(\n"
    (∀ line ∈ lines, isSilent line.toList = true) ∧
      extractSource (textOfLines lines ++ script) = (extractSource script).lower 3 ∧
      ∃ message laterMessage line,
        extractSource text = { steps := [.ofParseError message line] } ∧
        extractSource (textOfLines lines ++ text) =
          { steps := [.ofParseError laterMessage (line + 3)] } := by
  intro lines script text
  have hlines : ∀ line ∈ lines, isSilent line.toList = true := by decide
  have hscript : (parse script).isOk = true := by decide +kernel
  have htext : (parse text).isOk = false := by decide +kernel
  refine ⟨hlines, ?_, ?_⟩
  · cases hparse : parse script with
    | error error =>
        rw [hparse] at hscript
        contradiction
    | ok program => exact ((extractSource_belowLines hlines script).1 program hparse).2
  · cases hparse : parse text with
    | ok program =>
        rw [hparse] at htext
        contradiction
    | error error =>
        obtain ⟨later, -, hextract, hlater⟩ :=
          (extractSource_belowLines hlines text).2 error hparse
        exact ⟨error.message, later.message, error.span.line, hextract, hlater⟩

end EventLoop
