import EventLoop.Text.Start
import EventLoop.Toml.Quoted
import EventLoop.Toml.Scalar
import EventLoop.Toml.Table

/-!
# TOML documents

A document is a list of lines: headings, pairs of a key and a value, comments
and empty lines.  Pairs belong to the table of the heading above them.

Reading goes by the first characters of what is read.  Values nest to a fixed
depth (`nestingLimit`), and keys have as many parts at most; the loops over
elements, pairs and lines are bounded by the number of characters that are
left, of which each round takes at least one.
-/

namespace EventLoop.Toml

/-- A document goes no deeper, and a key has no more parts. -/
def nestingLimit : Nat := 79

/-! ## Between values -/

/-- Moves past spaces and tabs. -/
def skipBlanks (cs : List Char) : List Char :=
  cs.dropWhile isBlank

/-- Moves past blanks, line ends and comments. -/
def skipFiller (inComment : Bool) : List Char → Option (List Char)
  | [] => some []
  | c :: cs =>
    if c = '\n' then skipFiller false cs
    else if inComment then if isTextChar c then skipFiller true cs else none
    else if isBlank c then skipFiller false cs
    else if c = '#' then skipFiller true cs
    else some (c :: cs)

/-- What follows the end of a line, before which there are only blanks and a
comment. -/
def endLine (cs : List Char) : Option (List Char) :=
  match skipBlanks cs with
  | [] => some []
  | '\n' :: rest => some rest
  | '#' :: rest =>
    match rest.dropWhile isTextChar with
    | [] => some []
    | '\n' :: rest => some rest
    | _ => none
  | _ => none

/-! ## Keys -/

/-- Whether a character may stand in a name without quotes. -/
def isNameChar (c : Char) : Bool :=
  c.isAlphanum || c = '_' || c = '-'

/-- A name. -/
def readName? (cs : List Char) : Option (String × List Char) :=
  (readLineText? cs).or <|
    let name := cs.takeWhile isNameChar
    if name.isEmpty then none else some (String.ofList name, cs.dropWhile isNameChar)

/-- A key of a number of parts at most: the names before its last one, and the
last one. -/
def readKey? : Nat → List Char → Option (List String × String × List Char)
  | 0, _ => none
  | parts + 1, cs => do
    let (name, rest) ← readName? (skipBlanks cs)
    match skipBlanks rest with
    | '.' :: rest =>
      let (path, last, rest) ← readKey? parts rest
      return (name :: path, last, rest)
    | rest => return ([], name, rest)

/-! ## Values -/

/-- A reader of values. -/
abbrev Reader := List Char → Option (Value × List Char)

/-- A pair. -/
def readPair (value : Reader) (cs : List Char) : Option (Pair × List Char) := do
  let (path, name, rest) ← readKey? nestingLimit cs
  let (content, rest) ← value (skipBlanks (← Text.after? ['='] rest))
  return (⟨path, name, content⟩, rest)

/-- The elements of a list and its closing bracket. -/
def readElements (value : Reader) : Nat → List Char → Option (List Value × List Char)
  | 0, _ => none
  | rounds + 1, cs => do
    match ← skipFiller false cs with
    | ']' :: rest => return ([], rest)
    | cs =>
      let (element, rest) ← value cs
      match ← skipFiller false rest with
      | ']' :: rest => return ([element], rest)
      | ',' :: rest =>
        let (elements, rest) ← readElements value rounds rest
        return (element :: elements, rest)
      | _ => none

/-- The pairs of a table on one line and its closing bracket. -/
def readPairs (value : Reader) : Nat → List Char → Option (List Pair × List Char)
  | 0, _ => none
  | rounds + 1, cs => do
    let (pair, rest) ← readPair value cs
    match skipBlanks rest with
    | '\x7d' :: rest => return ([pair], rest)
    | ',' :: rest =>
      let (pairs, rest) ← readPairs value rounds rest
      return (pair :: pairs, rest)
    | _ => none

/-- A table on one line. -/
def readInlineTable (value : Reader) (cs : List Char) : Option (Value × List Char) :=
  match skipBlanks cs with
  | '\x7d' :: rest => some (.table [], rest)
  | cs => do
    let (pairs, rest) ← readPairs value cs.length cs
    return (.table (valuesOf (← addPairs pairs [])), rest)

/-- A value that nests to a depth at most. -/
def readValue : Nat → Reader
  | 0, cs => ((readText? cs).map fun (text, rest) => (Value.text text, rest)).or (readScalar? cs)
  | depth + 1, cs =>
    match cs with
    | '[' :: rest =>
      (readElements (readValue depth) cs.length rest).map fun (elements, rest) =>
        (.list elements, rest)
    | '\x7b' :: rest => readInlineTable (readValue depth) rest
    | cs => ((readText? cs).map fun (text, rest) => (Value.text text, rest)).or (readScalar? cs)

/-! ## Lines -/

/-- A line that says something. -/
inductive Line where
  | heading (heading : Heading)
  | pair (pair : Pair)

/-- A heading after its opening brackets, and the rest of its line. -/
def readHeading (isElement : Bool) (cs : List Char) : Option (Line × List Char) := do
  let (path, name, rest) ← readKey? nestingLimit cs
  let rest ← Text.after? (if isElement then [']', ']'] else [']']) rest
  return (.heading ⟨path, name, isElement⟩, ← endLine rest)

/-- A heading or a pair, and the rest of its line. -/
def readLine : List Char → Option (Line × List Char)
  | '[' :: '[' :: rest => readHeading true rest
  | '[' :: rest => readHeading false rest
  | cs => do
    let (pair, rest) ← readPair (readValue nestingLimit) cs
    return (.pair pair, ← endLine rest)

/-- The lines of a document, of a number at most. -/
def readLines : Nat → List Char → Option (List Line)
  | 0, _ => none
  | rounds + 1, cs => do
    match ← skipFiller false cs with
    | [] => return []
    | cs =>
      let (line, rest) ← readLine cs
      return line :: (← readLines rounds rest)

/-- The pairs before the first heading, and the headings with the pairs after
each. -/
def sectionsOf : List Line → List Pair × List (Heading × List Pair)
  | [] => ([], [])
  | .pair pair :: lines =>
    let (pairs, sections) := sectionsOf lines
    (pair :: pairs, sections)
  | .heading heading :: lines =>
    let (pairs, sections) := sectionsOf lines
    ([], (heading, pairs) :: sections)

/-- The entries of a document. -/
def entriesOf (lines : List Line) : Option Entries := do
  let (pairs, sections) := sectionsOf lines
  sections.foldlM (fun entries (heading, pairs) => addTable entries heading pairs)
    (← addPairs pairs [])

/-- A text whose lines end in a line feed alone. -/
def unifyLineEnds : List Char → List Char
  | [] => []
  | '\r' :: '\n' :: cs => '\n' :: unifyLineEnds cs
  | c :: cs => c :: unifyLineEnds cs

/-- A text without the mark of its byte order. -/
def dropByteOrderMark : List Char → List Char
  | '\ufeff' :: cs => cs
  | cs => cs

/-- The entries of a text, if it is a document. -/
def read? (text : String) : Option (List (String × Value)) := do
  let cs := unifyLineEnds (dropByteOrderMark text.toList)
  return valuesOf (← entriesOf (← readLines (cs.length + 1) cs))

end EventLoop.Toml
