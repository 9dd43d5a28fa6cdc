import EventLoop.Setting.Basic

/-!
# Layers of settings

Settings come in layers, of which later ones win.  Putting a group onto a group
keeps what only the lower one has (`put`); anything else replaces what was
there.  The same goes within a layer, for names that differ in case only.

A layer names the places of its settings by paths such as `ticker.speed` or
`list[0]` (`readPath?`).  Whatever stands in the way of a path is replaced by a
group or by a list (`putAt`).  Only the last name of a path is folded to small
letters; a group on the way keeps the name that the path gives it, until it is
put onto another group itself.
-/

namespace EventLoop.Setting

mutual

/-- Puts a setting under a name of another one, which is replaced by a group if
it is none. -/
def put (name : String) (value target : Setting) : Setting :=
  let name := small name
  match value with
  | .group incoming =>
    let lower := (target.entries.lookup name).getD (.group [])
    .group (insertEntry name (putAll incoming lower) target.entries)
  | .missing => .group (insertEntry name .missing target.entries)
  | .text value => .group (insertEntry name (.text value) target.entries)
  | .integer value => .group (insertEntry name (.integer value) target.entries)
  | .number value => .group (insertEntry name (.number value) target.entries)
  | .bool value => .group (insertEntry name (.bool value) target.entries)
  | .list elements => .group (insertEntry name (.list elements) target.entries)

/-- Puts settings under their names, one after the other. -/
def putAll : List (String × Setting) → Setting → Setting
  | [], target => target
  | (name, value) :: rest, target => putAll rest (put name value target)

end

/-! ## Paths -/

/-- A step of a path. -/
inductive Place where
  | name (name : String)
  /-- A place in a list; negative ones count from its end. -/
  | index (index : Int)
  deriving DecidableEq

/-- Whether a character may stand in a name of a path. -/
def isPathChar (c : Char) : Bool :=
  c.isAlphanum || c = '_' || c = '-' || c = ' '

/-- Whether a character is a space or a tab. -/
def isSpace (c : Char) : Bool := c = ' ' || c = '\t'

/-- The index between two brackets, with blanks around it. -/
def readIndex? (cs : List Char) : Option Int :=
  let inner := ((cs.dropWhile isSpace).reverse.dropWhile isSpace).reverse
  if inner.head? = some '+' then none else Number.readInt? (String.ofList inner)

/-- The further steps of a path, where `rounds` bounds their number. -/
def readSteps? : Nat → List Char → Option (List Place)
  | _, [] => some []
  | 0, _ => none
  | rounds + 1, '.' :: cs =>
    let name := cs.takeWhile isPathChar
    if name.isEmpty then none
    else (readSteps? rounds (cs.dropWhile isPathChar)).map (.name (String.ofList name) :: ·)
  | rounds + 1, '[' :: cs => do
    let index ← readIndex? (cs.takeWhile (· ≠ ']'))
    let rest ← (cs.dropWhile (· ≠ ']')).tail?
    return .index index :: (← readSteps? rounds rest)
  | _, _ => none

/-- The path that a text denotes: a name and the steps from there. -/
def readPath? (s : String) : Option (String × List Place) :=
  let cs := s.toList
  let name := cs.takeWhile isPathChar
  if name.isEmpty then none
  else (readSteps? cs.length (cs.dropWhile isPathChar)).map (String.ofList name, ·)

/-- The place in a list of a length that an index denotes. -/
def placeOf (index : Int) (length : Nat) : Nat :=
  if 0 ≤ index then index.toNat else length - index.natAbs

/-- A list that is long enough to have the place of an index. -/
def lengthen (index : Int) (elements : List Setting) : List Setting :=
  if 0 ≤ index then
    elements ++ List.replicate (index.toNat + 1 - elements.length) Setting.missing
  else List.replicate (index.natAbs - elements.length) Setting.missing ++ elements

/-- Puts a setting at the end of a path, which is a step and those after it. -/
def putAt (value : Setting) : Place → List Place → Setting → Setting
  | .name name, [], target => put name value target
  | .name name, next :: rest, target =>
    let inner := (target.entries.lookup name).getD .missing
    .group (insertEntry name (putAt value next rest inner) target.entries)
  | .index index, [], target =>
    let elements := lengthen index target.elements
    .list (elements.set (placeOf index elements.length) value)
  | .index index, next :: rest, target =>
    let elements := lengthen index target.elements
    let place := placeOf index elements.length
    let inner := (elements[place]?).getD .missing
    .list (elements.set place (putAt value next rest inner))

/-- Puts a setting at the place that a text denotes; a text that is no path is
taken for a single name. -/
def putNamed (name : String) (value target : Setting) : Setting :=
  match readPath? name with
  | some (first, steps) => putAt value (.name first) steps target
  | none => put name value target

/-- Puts a layer of settings, with the texts that name their places, on top of
others. -/
def putLayer (target : Setting) (layer : List (String × Setting)) : Setting :=
  layer.foldl (fun target entry => putNamed entry.1 entry.2 target) target

/-- The settings of layers that are put on top of each other. -/
def ofLayers (layers : List (List (String × Setting))) : Setting :=
  layers.foldl putLayer (.group [])

end EventLoop.Setting
