import EventLoop.Script.Grammar
import EventLoop.Script.Placement

/-!
# Reading a script

`parse` reads the text of a script: the grammar gives a tree, and the tree a
program.  A text that the grammar does not accept is refused with the place
that matching got to and the rules that were tried there in vain.
-/

namespace EventLoop.Script

/-- Why a text is no script. -/
inductive ParseError where
  /-- Matching stopped at a line and a column, counted from one. -/
  | unexpected (line column : Nat) (expected : List Rule)
  /-- The text has a tree, but the tree has no meaning. -/
  | unreadable (error : AssemblyError)

namespace ParseError

/-- Alternatives as they are listed in a sentence. -/
def alternatives : List String → String
  | [] => ""
  | [name] => name
  | [first, second] => first ++ " or " ++ second
  | names => ", ".intercalate names.dropLast ++ ", or " ++ names.getLastD ""

/-- The text of an error. -/
def message : ParseError → String
  | .unexpected line column expected =>
    "SyntaxError at line " ++ toString line ++ ", column " ++ toString column ++ ": "
      ++ if expected.isEmpty then "unknown parsing error"
         else "expected " ++ alternatives (expected.map Rule.name)
  | .unreadable error => error.message

/-- Where the error is. -/
def span : ParseError → Span
  | .unexpected line column _ =>
    { startLine := line - 1, startColumn := column - 1, stopLine := line - 1, stopColumn := column }
  | .unreadable error => error.span

end ParseError

/-- The rules that failed at the furthest place, in the order of the grammar,
and that place as a line and a column. -/
def ParseError.ofAttempts (map : LineMap) (attempts : Peg.Attempts Rule) : ParseError :=
  let (line, column) := map.lineColumn attempts.offset
  .unexpected (line + 1) (column + 1) (Rule.all.filter (· ∈ attempts.rules))

/-- The tree of a text. -/
def match? (text : List Char) : Peg.Outcome Rule :=
  Peg.parse grammar Rule.all.length .program text

/-- The program of the tree of a text. -/
def readProgram (map : LineMap) : List (Peg.Tree Rule) → Except AssemblyError Program
  | [] => .error .nothing
  | .node rule start stop children :: _ => do
    checkTree map (.node rule start stop children)
    return ⟨stmtsOf (← Part.ofTrees map children), map.span start.offset stop.offset⟩

/-- The program of a text. -/
def parse (source : String) : Except ParseError Program :=
  let text := source.toList
  let map := LineMap.ofText text
  match match? text with
  | .failure attempts => .error (.ofAttempts map attempts)
  | .success _ _ trees => (readProgram map trees).mapError .unreadable

end EventLoop.Script
