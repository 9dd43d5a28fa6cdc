import EventLoop.Number.Decimal

/-!
# JSON values

Data records as values, before they become text.  Integers and other numbers
are kept apart, because a reader of records tells them apart; an object is the
list of its members in the order in which they are written.

`Json.pretty` writes a value over several lines, one member or element to a
line, two spaces deeper than what encloses it.  A number that is not finite is
written `null`, which no number reads back from.
-/

namespace EventLoop

/-- A JSON value. -/
inductive Json where
  | null
  | bool (value : Bool)
  | int (value : Int)
  | float (value : Float)
  | text (value : String)
  | array (elements : List Json)
  | object (members : List (String × Json))

instance : Inhabited Json := ⟨.null⟩

namespace Json

/-- A natural number. -/
def nat (n : Nat) : Json := .int n

/-- A number, or `null` for what JSON has no number for. -/
def number (x : Float) : Json :=
  if x.isFinite then .float x else .null

/-- The value of a member, if the value is an object that has it. -/
def member? (key : String) : Json → Option Json
  | .object members => members.lookup key
  | _ => none

/-- The name of a constant: a text, or an object with that name as its only
member and nothing in it. -/
def constantName? : Json → Option String
  | .text name => some name
  | .object [(name, .null)] => some name
  | _ => none

/-- A value or nothing. -/
def ofOption {α : Type} (write : α → Json) : Option α → Json
  | some value => write value
  | none => .null

/-- A member, or no member at all where there is nothing to write. -/
def optional {α : Type} (key : String) (write : α → Json) : Option α → List (String × Json)
  | some value => [(key, write value)]
  | none => []

/-! ## Text -/

/-- A character inside a quoted text: the two quote characters of the format
and control characters are escaped. -/
def escapeChar (c : Char) : List Char :=
  if c = '\x22' then ['\\', '\x22']
  else if c = '\\' then ['\\', '\\']
  else if c = '\n' then ['\\', 'n']
  else if c = '\r' then ['\\', 'r']
  else if c = '\t' then ['\\', 't']
  else if c = '\x08' then ['\\', 'b']
  else if c = '\x0c' then ['\\', 'f']
  else if c.toNat < 0x20 then
    ['\\', 'u', '0', '0', Nat.digitChar (c.toNat / 16), Nat.digitChar (c.toNat % 16)]
  else [c]

/-- A text between double quotes. -/
def quoted (s : String) : String :=
  String.ofList ('\x22' :: s.toList.flatMap escapeChar ++ ['\x22'])

/-- The start of a line at a depth of indentation. -/
def newline (depth : Nat) : String :=
  String.ofList ('\n' :: List.replicate (2 * depth) ' ')

mutual

/-- A value over several lines, at a depth of indentation. -/
def prettyAt (depth : Nat) : Json → String
  | .null => "null"
  | .bool value => if value then "true" else "false"
  | .int value => toString value
  | .float value => if value.isFinite then Number.recordText value else "null"
  | .text value => quoted value
  | .array [] => "[]"
  | .array (first :: rest) =>
    "[" ++ newline (depth + 1) ++ prettyAt (depth + 1) first ++ prettyElements depth rest
  | .object [] => "\x7b\x7d"
  | .object (first :: rest) =>
    "\x7b" ++ newline (depth + 1) ++ quoted first.1 ++ ": " ++ prettyAt (depth + 1) first.2
      ++ prettyMembers depth rest

/-- The further elements of an array and its end. -/
def prettyElements (depth : Nat) : List Json → String
  | [] => newline depth ++ "]"
  | element :: rest =>
    "," ++ newline (depth + 1) ++ prettyAt (depth + 1) element ++ prettyElements depth rest

/-- The further members of an object and its end. -/
def prettyMembers (depth : Nat) : List (String × Json) → String
  | [] => newline depth ++ "\x7d"
  | (key, value) :: rest =>
    "," ++ newline (depth + 1) ++ quoted key ++ ": " ++ prettyAt (depth + 1) value
      ++ prettyMembers depth rest

end

/-- A value over several lines. -/
def pretty (value : Json) : String :=
  prettyAt 0 value

end Json

end EventLoop
