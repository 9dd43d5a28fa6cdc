import EventLoop.Number.Integer
import EventLoop.Table

/-!
# Settings

What a source of settings holds: single values, lists, and groups of named
settings.  The entries of a group are in increasing order of names.

Names are compared without case, so they are folded to small letters (`small`)
when a setting is put under them.  A field of a group is found by its name, and
a list stands for a group whose fields are given in order (`field?`).

## Conversions

A setting has the type of the field that it is read for.  Single values convert
to each other where this makes sense, and the words for switches (`yes`, `off`,
…) stand for truth values, and for one and zero where a number is asked for.
-/

namespace EventLoop

/-- What a source of settings holds under a name. -/
inductive Setting where
  /-- Nothing: a place in a list that was never filled. -/
  | missing
  | text (value : String)
  | integer (value : Int)
  | number (value : Float)
  | bool (value : Bool)
  | list (elements : List Setting)
  | group (entries : List (String × Setting))

instance : Inhabited Setting := ⟨.missing⟩

namespace Setting

/-- The entries of a group; nothing else has any. -/
def entries : Setting → List (String × Setting)
  | .group entries => entries
  | _ => []

/-- The elements of a list; nothing else has any. -/
def elements : Setting → List Setting
  | .list elements => elements
  | _ => []

/-- The field of a name, or the one at a place in a list that stands for a
group. -/
def field? (name : String) (place : Nat) : Setting → Option Setting
  | .group entries => entries.lookup name
  | .list elements => elements[place]?
  | _ => none

/-! ## Case -/

/-- The small letter of a capital letter, as far as it is one of the letters
that names of settings are made of.  Beyond ASCII, the Kelvin sign is the only
character whose small letter is such a letter. -/
def smallLetter (c : Char) : Char :=
  if c = '\u212a' then 'k' else c.toLower

/-- A text in small letters. -/
def small (s : String) : String :=
  String.ofList (s.toList.map smallLetter)

/-! ## Conversions -/

/-- The truth value that a word stands for. -/
def ofSwitch? (s : String) : Option Bool :=
  let word := small s
  if word = "true" ∨ word = "on" ∨ word = "yes" then some true
  else if word = "false" ∨ word = "off" ∨ word = "no" then some false
  else none

/-- A natural number of 64 bits; a number is rounded to the nearest one, a half
goes up. -/
def toNat? : Setting → Option Nat
  | .integer value => if 0 ≤ value then some value.toNat else none
  | .bool value => some value.toNat
  | .number value => some (Number.roundToNat64 value)
  | .text value => ((ofSwitch? value).map Bool.toNat).or (Number.readNat? value)
  | _ => none

/-- A number. -/
def toFloat? : Setting → Option Float
  | .number value => some value
  | .integer value => some (Number.nearest (value < 0) value.natAbs 1)
  | .bool value => some (if value then 1 else 0)
  | .text value =>
    ((ofSwitch? value).map fun isOn => if isOn then (1 : Float) else 0).or (Number.readFloat? value)
  | _ => none

/-- A truth value; numbers other than zero are true. -/
def toBool? : Setting → Option Bool
  | .bool value => some value
  | .integer value => some (value ≠ 0)
  | .number value => some (value != 0)
  | .text value =>
    (ofSwitch? value).or
      (if value = "1" then some true else if value = "0" then some false else none)
  | _ => none

/-- A text. -/
def toText? : Setting → Option String
  | .text value => some value
  | .bool value => some (if value then "true" else "false")
  | .integer value => some (toString value)
  | .number value => some (Number.decimalText value)
  | _ => none

end Setting

end EventLoop
