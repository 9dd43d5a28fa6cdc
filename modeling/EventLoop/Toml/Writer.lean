import EventLoop.Number.Integer
import EventLoop.Toml.Quoted

/-!
# Writing TOML values

A text is written in the first of these kinds that can hold it without escapes:
between double quotes, between single quotes, between three double quotes and
between three single quotes; if none can, it is written between double quotes
with escapes (`quotedText`).  A tab can always be written, and is escaped
between double quotes.

An integer is written if it has 64 bits, and a number always has a point.
-/

namespace EventLoop.Toml

/-- What decides on the quotes of a text. -/
structure TextShape where
  hasControls : Bool
  hasBackslash : Bool
  hasLineEnd : Bool
  /-- The longest run of single quotes. -/
  singleQuotes : Nat
  /-- The longest run of double quotes. -/
  doubleQuotes : Nat

/-- The longest run of a character, where one of length `current` goes on. -/
def longestRun (c : Char) (current : Nat) : List Char → Nat
  | [] => current
  | d :: ds => if d = c then longestRun c (current + 1) ds else max current (longestRun c 0 ds)

/-- Whether a character can only be written with an escape. -/
def isControl (c : Char) : Bool := !isTextChar c && c != '\n'

/-- The shape of a text. -/
def shapeOf (cs : List Char) : TextShape :=
  { hasControls := cs.any isControl
    hasBackslash := cs.contains '\\'
    hasLineEnd := cs.contains '\n'
    singleQuotes := longestRun '\x27' 0 cs
    doubleQuotes := longestRun '\x22' 0 cs }

/-- The kind of quotes that a text is written between. -/
def styleOf (shape : TextShape) : QuoteStyle :=
  if !shape.hasControls && !shape.hasBackslash && shape.doubleQuotes = 0 && !shape.hasLineEnd then
    ⟨'\x22', true, false⟩
  else if !shape.hasControls && shape.singleQuotes = 0 && !shape.hasLineEnd then
    ⟨'\x27', false, false⟩
  else if !shape.hasControls && !shape.hasBackslash && shape.doubleQuotes ≤ 2 then
    ⟨'\x22', true, true⟩
  else if !shape.hasControls && shape.singleQuotes ≤ 2 then ⟨'\x27', false, true⟩
  else ⟨'\x22', true, shape.hasLineEnd⟩

/-- The four digits of a code point below `0x10000`. -/
def codeDigits (n : Nat) : List Char :=
  [n / 4096 % 16, n / 256 % 16, n / 16 % 16, n % 16].map fun digit => (Nat.digitChar digit).toUpper

/-- A character between double quotes. -/
def escapeChar (c : Char) : List Char :=
  if c = '\x08' then ['\\', 'b']
  else if c = '\t' then ['\\', 't']
  else if c = '\n' then ['\\', 'n']
  else if c = '\x0c' then ['\\', 'f']
  else if c = '\r' then ['\\', 'r']
  else if c = '\\' then ['\\', '\\']
  else if isControl c then '\\' :: 'u' :: codeDigits c.toNat
  else [c]

/-- A text between double quotes.  In many lines, line ends stand for
themselves, and of three quotes in a row the last one is escaped; in one line,
all are. -/
def escapeText (manyLines : Bool) (quotes : Nat) : List Char → List Char
  | [] => []
  | c :: cs =>
    if c = '\x22' then
      if manyLines ∧ quotes < 2 then c :: escapeText manyLines (quotes + 1) cs
      else '\\' :: c :: escapeText manyLines 0 cs
    else if manyLines ∧ c = '\n' then c :: escapeText manyLines 0 cs
    else escapeChar c ++ escapeText manyLines 0 cs

/-- A text between quotes. -/
def quotedText (s : String) : String :=
  let cs := s.toList
  let shape := shapeOf cs
  let style := styleOf shape
  let quotes := List.replicate (if style.manyLines then 3 else 1) style.quote
  let start := if style.manyLines ∧ shape.hasLineEnd then ['\n'] else []
  let body := if style.hasEscapes then escapeText style.manyLines 0 cs else cs
  String.ofList (quotes ++ start ++ body ++ quotes)

/-- An integer of 64 bits. -/
def integerText? (n : Nat) : Option String :=
  if n < Number.intBound then some (toString n) else none

/-- A number with a point, or a word for what is not finite. -/
def numberText (x : Float) : String :=
  if x.isNaN then "nan" else if x.isInf then Number.decimalText x else Number.fractionText x

/-- A truth value. -/
def boolText (b : Bool) : String := if b then "true" else "false"

end EventLoop.Toml
