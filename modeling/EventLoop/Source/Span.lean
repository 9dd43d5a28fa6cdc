/-!
# Spans

A span is a stretch of a source text: two byte offsets and, for each of them,
the line and the column, all counted from zero.  `merge` is the least span
that covers two spans of one text.
-/

namespace EventLoop

/-- A stretch of a source text. -/
structure Span where
  start : Nat := 0
  stop : Nat := 0
  startLine : Nat := 0
  startColumn : Nat := 0
  stopLine : Nat := 0
  stopColumn : Nat := 0
  deriving DecidableEq

namespace Span

/-- The span of nothing. -/
def zero : Span := {}

/-- The least span that covers two spans. -/
def merge (a b : Span) : Span :=
  let first := if a.start ≤ b.start then a else b
  let last := if b.stop ≤ a.stop then a else b
  { start := min a.start b.start
    stop := max a.stop b.stop
    startLine := first.startLine
    startColumn := first.startColumn
    stopLine := last.stopLine
    stopColumn := last.stopColumn }

/-- The line on which a span starts, counted from one. -/
def line (span : Span) : Nat :=
  span.startLine + 1

end Span

end EventLoop
