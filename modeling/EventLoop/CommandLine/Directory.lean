/-!
# Directories

The texts of the files below a directory, by their paths in it, and why a path
may have no text.  A path may go through `.` and `..`, but each step has to
start from a directory; a path that starts with a slash starts outside.
-/

namespace EventLoop.CommandLine

/-- Why a path has no text. -/
inductive FileError where
  | notFound
  | notDirectory
  | isDirectory
  | notText
  deriving DecidableEq

/-- The text of an error. -/
def FileError.message : FileError → String
  | .notFound => "No such file or directory (os error 2)"
  | .notDirectory => "Not a directory (os error 20)"
  | .isDirectory => "Is a directory (os error 21)"
  | .notText => "stream did not contain valid UTF-8"

/-- The names between the slashes of a path. -/
def namesBetween (name : List Char) : List Char → List String
  | [] => [String.ofList name.reverse]
  | c :: cs =>
    if c = '/' then String.ofList name.reverse :: namesBetween [] cs
    else namesBetween (c :: name) cs

/-- The names of a path that lead anywhere. -/
def namesOf (path : String) : List String :=
  (namesBetween [] path.toList).filter fun name => name ≠ "" && name ≠ "."

/-- The path of the file that stands in for a directory: its own path with the
ending of settings files.  A path that ends in `..`, or never leaves the
directory where it starts, has none. -/
def standIn? (path : String) : Option String :=
  let names := namesOf path
  match names.getLast? with
  | none | some ".." => none
  | some _ => some ((if path.startsWith "/" then "/" else "") ++ "/".intercalate names ++ ".toml")

/-- The files below a directory, by the names that their paths go through. -/
structure Directory where
  files : List (List String × String)

namespace Directory

/-- The directory of files with given paths. -/
def ofList (files : List (String × String)) : Directory :=
  ⟨files.map fun (path, text) => (namesOf path, text)⟩

/-- Goes on by one name from a place below the directory, or from outside of it
(`none`), where nothing is known but other directories above. -/
def goOn (directory : Directory) (place : Option (List String)) (name : String) :
    Except FileError (Option (List String)) :=
  match place with
  | none => if name = "" ∨ name = "." ∨ name = ".." then .ok none else .error .notFound
  | some names =>
    if (directory.files.lookup names).isSome then .error .notDirectory
    else if name = "" ∨ name = "." then .ok (some names)
    else if name = ".." then .ok (if names.isEmpty then none else some names.dropLast)
    else if directory.files.any fun file => (names ++ [name]).isPrefixOf file.1 then
      .ok (some (names ++ [name]))
    else .error .notFound

/-- The text at a path. -/
def textAt (directory : Directory) (path : String) : Except FileError String := do
  if path.isEmpty then throw .notFound
  let start := if path.startsWith "/" then none else some []
  match ← (namesBetween [] path.toList).foldlM directory.goOn start with
  | none => throw .isDirectory
  | some names =>
    match directory.files.lookup names with
    | some text => return text
    | none => throw .isDirectory

end Directory

end EventLoop.CommandLine
