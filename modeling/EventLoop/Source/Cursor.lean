/-!
# Cursors

A place in a source text, from which the text is read on: the byte offset and
the characters that are left.
-/

namespace EventLoop

/-- A place in a source text. -/
structure Cursor where
  offset : Nat
  rest : List Char
  deriving DecidableEq

namespace Cursor

/-- The start of a text. -/
def start (text : List Char) : Cursor :=
  ⟨0, text⟩

/-- The place behind a literal text, if it stands here. -/
def drop? : List Char → Cursor → Option Cursor
  | [], cursor => some cursor
  | c :: cs, ⟨offset, d :: rest⟩ =>
    if c = d then drop? cs ⟨offset + d.utf8Size, rest⟩ else none
  | _ :: _, ⟨_, []⟩ => none

/-- The characters that make up the next bytes. -/
def takeBytes : Nat → List Char → List Char
  | 0, _ => []
  | _, [] => []
  | bytes, c :: cs => c :: takeBytes (bytes - c.utf8Size) cs

/-- The text between two places. -/
def textTo (cursor stop : Cursor) : List Char :=
  takeBytes (stop.offset - cursor.offset) cursor.rest

end Cursor

end EventLoop
