import EventLoop.Json
import EventLoop.Text.Quoted

/-!
# Values of variables

What is known about a variable without running the script.  A literal right
side gives a value; anything else is `unresolved` and keeps the source text of
the expression.
-/

namespace EventLoop

/-- The value bound to a variable, as far as the script's text shows it. -/
inductive Value where
  | undefined
  | null
  | bool (value : Bool)
  | number (value : Float)
  | text (value : String)
  | unresolved (source : String)

namespace Value

/-- Whether the value is known. -/
def isLiteral : Value → Bool
  | .unresolved _ => false
  | _ => true

/-- The value as a number. -/
def number? : Value → Option Float
  | .number value => some value
  | _ => none

/-- The value as a console prints it. -/
def display : Value → String
  | .undefined => "undefined"
  | .null => "null"
  | .bool value => if value then "true" else "false"
  | .number value => Number.formatNumber value
  | .text value => value
  | .unresolved source => source

/-- The value as a description shows it: a text is quoted. -/
def describe : Value → String
  | .text value => Text.quote value
  | value => value.display

/-- The record of a value: a tag and, where there is one, the content. -/
def toJson : Value → Json
  | .undefined => .object [("t", .text "Undefined")]
  | .null => .object [("t", .text "Null")]
  | .bool value => .object [("t", .text "Bool"), ("v", .bool value)]
  | .number value => .object [("t", .text "Num"), ("v", .number value)]
  | .text value => .object [("t", .text "Str"), ("v", .text value)]
  | .unresolved source => .object [("t", .text "Opaque"), ("v", .text source)]

/-- The value of a tag and a content. -/
def ofTag? (tag : String) (content : Option Json) : Option Value :=
  match tag, content with
  | "Undefined", none => some .undefined
  | "Undefined", some .null => some .undefined
  | "Null", none => some .null
  | "Null", some .null => some .null
  | "Bool", some (.bool value) => some (.bool value)
  | "Num", some (.int value) => some (.number (Number.nearest (value < 0) value.natAbs 1))
  | "Num", some (.float value) => some (.number value)
  | "Str", some (.text value) => some (.text value)
  | "Opaque", some (.text source) => some (.unresolved source)
  | _, _ => none

/-- Reads a record of a value: an object, or the pair of tag and content. -/
def ofJson? : Json → Option Value
  | .object members => do
    let tag ← (← members.lookup "t").constantName?
    ofTag? tag (members.lookup "v")
  | .array [tag, content] => do ofTag? (← tag.constantName?) (some content)
  | _ => none

end Value

end EventLoop
