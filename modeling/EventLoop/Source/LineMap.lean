import EventLoop.Source.Span

/-!
# Lines and columns

A byte offset of a text stands on the line whose number is the number of line
feeds before it, in the column that is the number of characters between the
last of them and the offset.

`LineMap.ofText` cuts a text into its lines once, each with the offset at
which it starts; `LineMap.lineColumn` looks an offset up.
-/

namespace EventLoop

/-- The number of bytes that characters take in a text. -/
def byteLength : List Char → Nat
  | [] => 0
  | c :: cs => c.utf8Size + byteLength cs

/-- A line of a text: the byte offset of its start, and its characters. -/
structure Line where
  start : Nat
  characters : List Char

/-- The number of characters before the byte `offset` of a line. -/
def columnOf : List Char → Nat → Nat
  | _, 0 => 0
  | [], _ => 0
  | c :: cs, offset => 1 + columnOf cs (offset - c.utf8Size)

/-- The lines of a text, of which the first one is apart because it is always
there. -/
structure LineMap where
  first : Line
  rest : List Line

namespace LineMap

/-- The lines of a text that starts at a byte offset.  A line feed ends its
line and belongs to it. -/
def ofTextAt (offset : Nat) : List Char → LineMap
  | [] => ⟨⟨offset, []⟩, []⟩
  | c :: cs =>
    let map := ofTextAt (offset + c.utf8Size) cs
    if c = '\n' then ⟨⟨offset, [c]⟩, map.first :: map.rest⟩
    else ⟨⟨offset, c :: map.first.characters⟩, map.rest⟩

/-- The lines of a text. -/
def ofText (text : List Char) : LineMap :=
  ofTextAt 0 text

/-- The number of the line on which an offset stands, and the line, where
`number` and `line` are those of the line reached so far. -/
def lineFrom (number : Nat) (line : Line) (offset : Nat) : List Line → Nat × Line
  | [] => (number, line)
  | next :: rest =>
    if next.start ≤ offset then lineFrom (number + 1) next offset rest else (number, line)

/-- The line and the column of a byte offset. -/
def lineColumn (map : LineMap) (offset : Nat) : Nat × Nat :=
  let (number, line) := lineFrom 0 map.first offset map.rest
  (number, columnOf line.characters (offset - line.start))

/-- The span between two byte offsets. -/
def span (map : LineMap) (start stop : Nat) : Span :=
  let (startLine, startColumn) := map.lineColumn start
  let (stopLine, stopColumn) := map.lineColumn stop
  { start, stop, startLine, startColumn, stopLine, stopColumn }

end LineMap

end EventLoop
