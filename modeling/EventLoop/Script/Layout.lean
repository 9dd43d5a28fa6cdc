import EventLoop.Source.Cursor

/-!
# Layout

What may stand between the tokens of a script: spaces, tabs and line ends, and
comments.  A comment runs from `//` to the end of the line or from `/*` to the
next `*/`; a `/*` that is never closed is no comment.
-/

namespace EventLoop.Script

/-- Spaces, tabs and line ends. -/
def isLayoutBlank (c : Char) : Bool :=
  c = ' ' || c = '\t' || c = '\r' || c = '\n'

/-- Whether a character ends a line. -/
def isLineEnd (c : Char) : Bool :=
  c = '\n' || c = '\r'

/-- What is being skipped. -/
inductive Skipping where
  | blanks
  | lineComment
  /-- A comment that starts at a place, which is where skipping ends if the
  comment is never closed. -/
  | blockComment (start : Cursor)

/-- Skips layout from a byte offset on. -/
def skipFrom : Skipping → Nat → List Char → Cursor
  | .blockComment start, _, [] => start
  | _, offset, [] => ⟨offset, []⟩
  | .blanks, offset, '/' :: '/' :: rest => skipFrom .lineComment (offset + 2) rest
  | .blanks, offset, '/' :: '*' :: rest =>
    skipFrom (.blockComment ⟨offset, '/' :: '*' :: rest⟩) (offset + 2) rest
  | .blanks, offset, c :: rest =>
    if isLayoutBlank c then skipFrom .blanks (offset + c.utf8Size) rest else ⟨offset, c :: rest⟩
  | .lineComment, offset, c :: rest =>
    skipFrom (if isLineEnd c then .blanks else .lineComment) (offset + c.utf8Size) rest
  | .blockComment _, offset, '*' :: '/' :: rest => skipFrom .blanks (offset + 2) rest
  | .blockComment start, offset, c :: rest =>
    skipFrom (.blockComment start) (offset + c.utf8Size) rest

/-- The place behind the layout at a place. -/
def skipLayout (cursor : Cursor) : Cursor :=
  skipFrom .blanks cursor.offset cursor.rest

end EventLoop.Script
