import EventLoop.Text.Alphanumeric
import EventLoop.Text.Blank
import EventLoop.Text.Start

/-!
# Variable files

A variable file gives values to variables of the environment that have none:
one line `NAME=value` each, perhaps after the word `export`.

A value ends at a blank, behind which only a comment may follow.  Between
single quotes all characters stand for themselves.  Between double quotes, and
outside of quotes, a backslash takes the next character along, and `$NAME` and
`${NAME}` stand for the values of variables: those of the environment first,
those given further up in the file otherwise; a name without braces is made of
letters and digits.  Quoted text may go over several lines.

A line that cannot be read ends the reading; what stands above it counts.
-/

namespace EventLoop.CommandLine

/-! ## Lines -/

/-- Where a scan of a line stands with respect to quotes, and to the blanks
before a comment. -/
inductive LineState where
  | complete
  | blank
  | escape
  | weak
  | weakEscape
  | strong
  | strongEscape
  deriving DecidableEq

/-- What a character does to the state of a line. -/
def LineState.step (state : LineState) (c : Char) : LineState :=
  match state with
  | .complete | .blank =>
    if c = '\\' then .escape
    else if c = '\x22' then .weak
    else if c = '\x27' then .strong
    else if state = .complete ∧ Text.isBlank c ∧ c ≠ '\n' ∧ c ≠ '\r' then .blank
    else .complete
  | .escape => .complete
  | .weak => if c = '\\' then .weakEscape else if c = '\x22' then .complete else .weak
  | .weakEscape => .weak
  | .strong => if c = '\\' then .strongEscape else if c = '\x27' then .complete else .strong
  | .strongEscape => .strong

/-- The characters of a line up to a comment, if it has one, and the state
there. -/
def scanLine (state : LineState) : List Char → List Char × LineState × Bool
  | [] => ([], state, false)
  | c :: cs =>
    if state = .blank ∧ c = '#' then ([], state, true)
    else
      let (kept, final, commented) := scanLine (state.step c) cs
      (c :: kept, final, commented)

/-- A text cut after each of its line feeds. -/
def cutLines : List Char → List (List Char)
  | [] => []
  | c :: cs =>
    if c = '\n' then [c] :: cutLines cs
    else
      match cutLines cs with
      | [] => [[c]]
      | line :: lines => (c :: line) :: lines

/-- A line without its line end. -/
def dropLineEnd (line : List Char) : List Char :=
  match line.reverse with
  | '\n' :: '\r' :: cs => cs.reverse
  | '\n' :: cs => cs.reverse
  | _ => line

/-- Puts lines together where a quoted text goes on, and drops comments;
`pending` holds the start of a line that is not complete.  A text that ends
within a line has `none` at its end. -/
def joinLines (pending : List Char) (state : LineState) : List (List Char) → List (Option (List Char))
  | [] => if state = .complete then [] else [none]
  | line :: lines =>
    if ((pending ++ line).dropWhile Text.isBlank).head? = some '#' then
      joinLines [] .complete lines
    else
      let (kept, final, commented) := scanLine state line
      if commented then some (pending ++ kept) :: joinLines [] .complete lines
      else if final = .complete then
        some (dropLineEnd (pending ++ line)) :: joinLines [] .complete lines
      else joinLines (pending ++ line) final lines

/-! ## Values -/

/-- The variables that a value can name: those of the environment, the ones set
first at the front, and those given further up, the last one at the front. -/
structure KnownVariables where
  environment : List (String × String)
  given : List (String × String)

/-- The value of a name in a value. -/
def KnownVariables.valueOf (known : KnownVariables) (name : List Char) : List Char :=
  let name := String.ofList name
  (((known.environment.lookup name).or (known.given.lookup name)).getD "").toList

/-- Where a scan of a value stands. -/
inductive ValueState where
  | plain
  | weak
  | strong
  /-- After a backslash, which may be between double quotes. -/
  | escape (isWeak : Bool)
  /-- In a name after a dollar sign, of which the characters so far are given
  in reverse. -/
  | name (isWeak : Bool) (reversed : List Char)
  /-- In a name between braces. -/
  | braced (isWeak : Bool) (reversed : List Char)
  /-- After the value, where only blanks and a comment may follow. -/
  | over

/-- The state inside or outside of double quotes. -/
def ValueState.resting (isWeak : Bool) : ValueState :=
  if isWeak then .weak else .plain

/-- What a character outside of names, escapes and single quotes does to the
state, with the characters that it adds. -/
def restingStep (isWeak : Bool) (c : Char) : ValueState × List Char :=
  if c = '$' then (.name isWeak [], [])
  else if c = '\\' then (.escape isWeak, [])
  else if c = '\x22' then (.resting (!isWeak), [])
  else if isWeak then (.weak, [c])
  else if c = '\x27' then (.strong, [])
  else if c = ' ' ∨ c = '\t' then (.over, [])
  else (.plain, [c])

/-- What a character does to the state, with the characters that it adds. -/
def valueStep (known : KnownVariables) : ValueState → Char → Option (ValueState × List Char)
  | .plain, c => some (restingStep false c)
  | .weak, c => some (restingStep true c)
  | .strong, c => some (if c = '\x27' then (.plain, []) else (.strong, [c]))
  | .escape isWeak, c =>
    if c = 'n' then some (.resting isWeak, ['\n'])
    else if c = '\\' ∨ c = '\x27' ∨ c = '\x22' ∨ c = '$' ∨ c = ' ' then some (.resting isWeak, [c])
    else none
  | .name isWeak reversed, c =>
    if Text.isAlphanumeric c then some (.name isWeak (c :: reversed), [])
    else if c = '\x7b' ∧ reversed.isEmpty then some (.braced isWeak [], [])
    else
      let value := known.valueOf reversed.reverse
      if c = '$' then some (.name isWeak [], value) else some (.resting isWeak, value ++ [c])
  | .braced isWeak reversed, c =>
    if c = '\x7d' then some (.resting isWeak, known.valueOf reversed.reverse)
    else some (.braced isWeak (c :: reversed), [])
  | .over, c => if c = ' ' ∨ c = '\t' then some (.over, []) else none

/-- The value that characters denote. -/
def readValue? (known : KnownVariables) (state : ValueState) : List Char → Option (List Char)
  | [] =>
    match state with
    | .plain | .over | .escape false => some []
    | .name false reversed => some (known.valueOf reversed.reverse)
    | .name true _ | .braced _ _ | .strong | .weak | .escape true => none
  | c :: cs =>
    match state with
    | .over => if c = '#' then some [] else (valueStep known .over c).bind fun _ => readValue? known .over cs
    | state =>
      (valueStep known state c).bind fun (next, added) =>
        (readValue? known next cs).map (added ++ ·)

/-! ## Assignments -/

/-- A name, and what follows it and the blanks after it. -/
def readVariable? (cs : List Char) : Option (String × List Char) :=
  let isPart := fun c : Char => c.isAlphanum || c = '_' || c = '.'
  match cs with
  | [] => none
  | c :: _ =>
    if c.isAlpha || c = '_' then
      some (String.ofList (cs.takeWhile isPart), (cs.dropWhile isPart).dropWhile Text.isBlank)
    else none

/-- The name of an assignment, and what follows its equals sign.  The word
`export` is a name itself if an equals sign follows it. -/
def readTarget? (cs : List Char) : Option (String × List Char) := do
  let (name, rest) ← readVariable? cs
  match Text.after? ['='] rest with
  | some value => return (name, value)
  | none =>
    if name = "export" then
      let (name, rest) ← readVariable? rest
      return (name, ← Text.after? ['='] rest)
    else none

/-- What a line says. -/
inductive LineContent where
  | nothing
  | assignment (name value : String)

/-- Reads a line. -/
def readLine? (known : KnownVariables) (line : List Char) : Option LineContent :=
  match Text.trim line with
  | [] | '#' :: _ => some .nothing
  | cs => do
    let (name, rest) ← readTarget? cs
    match rest.dropWhile Text.isBlank with
    | [] | '#' :: _ => return .assignment name ""
    | cs => return .assignment name (String.ofList (← readValue? known .plain cs))

/-- Gives values to the variables of lines, up to the first line that cannot be
read.  No variable can hold a null character: there is no environment where one
is given a value with such a character. -/
def addLines (known : KnownVariables) :
    List (Option (List Char)) → Option (List (String × String))
  | [] | none :: _ => some known.environment
  | some line :: lines =>
    match readLine? known line with
    | none => some known.environment
    | some .nothing => addLines known lines
    | some (.assignment name value) =>
      let given := (name, value) :: known.given
      if (known.environment.lookup name).isSome then addLines ⟨known.environment, given⟩ lines
      else if value.toList.contains '\x00' then none
      else addLines ⟨known.environment ++ [(name, value)], given⟩ lines

/-- An environment with the variables of a file's text added, if it can hold
them. -/
def addVariables (environment : List (String × String)) (text : String) :
    Option (List (String × String)) :=
  let cs := match text.toList with
    | '\ufeff' :: cs => cs
    | cs => cs
  addLines ⟨environment, []⟩ (joinLines [] .complete (cutLines cs))

end EventLoop.CommandLine
