import EventLoop.Toml.Value

/-!
# Tables of TOML

How the headings and pairs of a document make up its tables, and which of them
contradict each other.

A heading names a table by a path and may name a table only once.  Tables on
the way that nothing has named yet come to be on their own (`implied`) and may
be named later, which moves them to the end of the table around them.  A key
with dots makes tables, too (`dotted`); such a table can only be extended by
other keys with dots, not by a heading.  A heading in double brackets adds a
table to a list of tables, and paths through the list mean the last of them.

All readers of tables answer `none` where a document contradicts itself.
-/

namespace EventLoop.Toml

/-- How a table came to be. -/
inductive Origin where
  | named
  | implied
  | dotted
  deriving DecidableEq

/-- What stands under a name of a table. -/
inductive Node where
  | value (value : Value)
  | table (origin : Origin) (entries : List (String × Node))
  /-- A list of tables, the last one first. -/
  | tables (tables : List (List (String × Node)))

/-- The entries of a table. -/
abbrev Entries := List (String × Node)

/-- A key, as a path and the name at its end, and its value. -/
structure Pair where
  path : List String
  name : String
  value : Value

/-- A heading: the path of a table and its name, and whether the table is one
of a list. -/
structure Heading where
  path : List String
  name : String
  isElement : Bool

/-- Sets what stands under a name, in its place or else at the end. -/
def Entries.set (name : String) (node : Node) : Entries → Entries
  | [] => [(name, node)]
  | entry :: rest =>
    if entry.1 = name then (name, node) :: rest else entry :: Entries.set name node rest

/-- Removes a name. -/
def Entries.remove (name : String) (entries : Entries) : Entries :=
  entries.eraseP (·.1 = name)

/-- Changes the entries of the table at the end of a path.  Tables on the way
that are not there are made, as `dotted` or as `implied` ones. -/
def within (isDotted : Bool) (change : Origin → Entries → Option Entries) :
    List String → Origin → Entries → Option Entries
  | [], origin, entries => change origin entries
  | name :: path, _, entries =>
    match entries.lookup name with
    | none =>
      let origin := if isDotted then .dotted else .implied
      (within isDotted change path origin []).map fun inner =>
        Entries.set name (.table origin inner) entries
    | some (.table origin inner) =>
      if isDotted ∧ origin = .named then none
      else (within isDotted change path origin inner).map fun inner =>
        Entries.set name (.table origin inner) entries
    | some (.tables (last :: earlier)) =>
      (within isDotted change path .named last).map fun last =>
        Entries.set name (.tables (last :: earlier)) entries
    | some (.tables []) | some (.value _) => none

/-- Adds a pair.  A name has one value, and a key with dots extends only tables
that such keys have made. -/
def addPair (entries : Entries) (pair : Pair) : Option Entries :=
  within true
    (fun origin entries =>
      if (entries.lookup pair.name).isSome ∨ (pair.path ≠ [] ∧ origin ≠ .dotted) then none
      else some (Entries.set pair.name (.value pair.value) entries))
    pair.path .named entries

/-- Adds pairs, one after the other. -/
def addPairs (pairs : List Pair) (entries : Entries) : Option Entries :=
  pairs.foldlM addPair entries

/-- Adds the table of a heading, with the pairs that follow the heading. -/
def addTable (entries : Entries) (heading : Heading) (pairs : List Pair) : Option Entries :=
  within false
    (fun _ entries =>
      match heading.isElement, entries.lookup heading.name with
      | false, none =>
        (addPairs pairs []).map fun inner => Entries.set heading.name (.table .named inner) entries
      | false, some (.table .implied inner) =>
        (addPairs pairs inner).map fun inner =>
          Entries.remove heading.name entries ++ [(heading.name, .table .named inner)]
      | true, none =>
        (addPairs pairs []).map fun inner => Entries.set heading.name (.tables [inner]) entries
      | true, some (.tables earlier) =>
        (addPairs pairs []).map fun inner =>
          Entries.set heading.name (.tables (inner :: earlier)) entries
      | _, _ => none)
    heading.path .named entries

mutual

/-- The value that a node stands for. -/
def Node.toValue : Node → Value
  | .value value => value
  | .table _ entries => .table (valuesOf entries)
  | .tables tables => .list (tablesOf [] tables)

/-- The values of a table. -/
def valuesOf : List (String × Node) → List (String × Value)
  | [] => []
  | (name, node) :: rest => (name, node.toValue) :: valuesOf rest

/-- The tables of a list of tables, the last one first, before those that
follow. -/
def tablesOf (following : List Value) : List (List (String × Node)) → List Value
  | [] => following
  | entries :: earlier => tablesOf (.table (valuesOf entries) :: following) earlier

end

end EventLoop.Toml
