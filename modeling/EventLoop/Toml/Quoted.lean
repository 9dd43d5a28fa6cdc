import EventLoop.Number.Decimal

/-!
# Quoted texts of TOML

A text stands between double quotes, with escapes, or between single quotes,
without; between single ones of either kind it is one line, between triple ones
it may be many.  In a text of many lines a backslash at the end of a line takes
the line end and the blanks after it away, and one or two quotes are part of
the text, also right before the three that close it.

One scanner reads all four kinds (`scan`): it goes over the characters once,
and its state tells what has to be known of those before.
-/

namespace EventLoop.Toml

/-- A kind of quoted text. -/
structure QuoteStyle where
  quote : Char
  hasEscapes : Bool
  manyLines : Bool
  deriving DecidableEq

/-- Where a scanner stands in a quoted text. -/
inductive ScanState where
  | plain
  /-- After a backslash. -/
  | escape
  /-- In the digits of an escaped code point, with the number that are left and
  the value so far. -/
  | code (left value : Nat)
  /-- After a backslash and blanks, where a line has to end. -/
  | lineEnd
  /-- After an escaped line end. -/
  | indent
  /-- After a number of quotes in a row. -/
  | quotes (count : Nat)

/-- Whether a character may stand in a text or in a comment: no control
character but the tab. -/
def isTextChar (c : Char) : Bool :=
  c = '\t' || (0x20 ≤ c.toNat && c.toNat ≠ 0x7F)

/-- A space or a tab. -/
def isBlank (c : Char) : Bool := c = ' ' || c = '\t'

/-- The character that a backslash and a character stand for. -/
def escaped? (c : Char) : Option Char :=
  if c = 'b' then some '\x08'
  else if c = 't' then some '\t'
  else if c = 'n' then some '\n'
  else if c = 'f' then some '\x0c'
  else if c = 'r' then some '\r'
  else if c = '\x22' ∨ c = '\\' then some c
  else none

/-- The character of a code point, unless it is none. -/
def charOf? (code : Nat) : Option Char :=
  if code.isValidChar then some (Char.ofNat code) else none

namespace QuoteStyle

/-- What a character does to the state where nothing is pending, with the
characters that it adds to the text. -/
def plainStep (style : QuoteStyle) (c : Char) : Option (ScanState × List Char) :=
  if c = style.quote then some (.quotes 1, [])
  else if c = '\\' ∧ style.hasEscapes then some (.escape, [])
  else if isTextChar c ∨ (c = '\n' ∧ style.manyLines) then some (.plain, [c])
  else none

/-- What a character does to the state. -/
def step (style : QuoteStyle) : ScanState → Char → Option (ScanState × List Char)
  | .plain, c => style.plainStep c
  | .escape, c =>
    if c = 'u' then some (.code 4 0, [])
    else if c = 'U' then some (.code 8 0, [])
    else if isBlank c ∧ style.manyLines then some (.lineEnd, [])
    else if c = '\n' ∧ style.manyLines then some (.indent, [])
    else (escaped? c).map fun character => (.plain, [character])
  | .code left value, c => do
    let value := 16 * value + (← Number.digitValue? 16 c)
    if left ≤ 1 then return (.plain, [← charOf? value]) else return (.code (left - 1) value, [])
  | .lineEnd, c =>
    if isBlank c then some (.lineEnd, []) else if c = '\n' then some (.indent, []) else none
  | .indent, c => if isBlank c ∨ c = '\n' then some (.indent, []) else style.plainStep c
  | .quotes count, c =>
    if c = style.quote then some (.quotes (count + 1), [])
    else (style.plainStep c).map fun (state, added) =>
      (state, List.replicate count style.quote ++ added)

/-- Whether the text goes on with a character. -/
def goesOn (style : QuoteStyle) : ScanState → Char → Bool
  | .quotes count, c => style.manyLines && (count < 3 || c = style.quote)
  | _, _ => true

/-- The quotes that belong to a text which ends in a state, if one does. -/
def closing? (style : QuoteStyle) : ScanState → Option (List Char)
  | .quotes count =>
    if style.manyLines then
      if 3 ≤ count ∧ count ≤ 5 then some (List.replicate (count - 3) style.quote) else none
    else some []
  | _ => none

/-- Reads the rest of a text of which `reversed` is the start; what follows the
text. -/
def scan (style : QuoteStyle) (state : ScanState) (reversed : List Char) :
    List Char → Option (String × List Char)
  | [] => (style.closing? state).map fun quotes => (String.ofList (reversed.reverse ++ quotes), [])
  | c :: cs =>
    if style.goesOn state c then
      match style.step state c with
      | some (next, added) => scan style next (added.reverse ++ reversed) cs
      | none => none
    else (style.closing? state).map fun quotes =>
      (String.ofList (reversed.reverse ++ quotes), c :: cs)

end QuoteStyle

/-- Text of one line between double or single quotes, if one starts here. -/
def readLineText? : List Char → Option (String × List Char)
  | '\x22' :: cs => QuoteStyle.scan ⟨'\x22', true, false⟩ .plain [] cs
  | '\x27' :: cs => QuoteStyle.scan ⟨'\x27', false, false⟩ .plain [] cs
  | _ => none

/-- What follows a line end, if there is one. -/
def dropLineEnd : List Char → List Char
  | '\n' :: cs => cs
  | cs => cs

/-- A quoted text of any kind, if one starts here. -/
def readText? : List Char → Option (String × List Char)
  | '\x22' :: '\x22' :: '\x22' :: cs =>
    QuoteStyle.scan ⟨'\x22', true, true⟩ .plain [] (dropLineEnd cs)
  | '\x27' :: '\x27' :: '\x27' :: cs =>
    QuoteStyle.scan ⟨'\x27', false, true⟩ .plain [] (dropLineEnd cs)
  | cs => readLineText? cs

end EventLoop.Toml
