import EventLoop.Number.Integer

/-!
# Arguments

The arguments of the program: a command, its options and the file that it is
about.  The option `--config` may stand before and after the command; after it,
it counts more.

Arguments are read from left to right, and the first one that cannot be right
decides, whatever follows it: a request for help is granted only if nothing
before it is wrong.  An option that takes a value takes the next argument,
unless that starts with a dash and is more than a dash, or what follows an
equals sign in the option itself.  After `--` there are no more options.
-/

namespace EventLoop.CommandLine

/-- What the program is asked to do. -/
inductive Command where
  | steps (file : String) (json : Bool)
  | run (file : String) (speed : Option Float) (intervalMs : Option Nat) (realtime json : Bool)
  | config

/-- The script file of a command that has one. -/
def Command.file? : Command → Option String
  | .steps file _ => some file
  | .run file _ _ _ _ => some file
  | .config => none

/-- A command, and the settings file to use for it. -/
structure Invocation where
  configPath : Option String
  command : Command

/-- What help can be asked about. -/
inductive Topic where
  | program
  | steps
  | run
  | config
  | help
  deriving DecidableEq

/-- Why arguments are no invocation. -/
inductive Refusal where
  /-- They ask for help. -/
  | help (topic : Topic)
  /-- They are wrong. -/
  | misuse
  deriving DecidableEq

/-! ## Options -/

/-- An option: whether it takes a value, and then which ones. -/
structure OptionSpec where
  name : String
  accepts : Option (String → Bool)

/-- The option that all commands have. -/
def configOption : OptionSpec := ⟨"config", some fun _ => true⟩

/-- The option that asks for records instead of text. -/
def jsonOption : OptionSpec := ⟨"json", none⟩

/-- The options of the `run` command. -/
def runOptions : List OptionSpec :=
  [configOption, ⟨"speed", some fun value => (Number.readFloat? value).isSome⟩,
   ⟨"interval-ms", some fun value => (Number.readNat? value).isSome⟩, ⟨"realtime", none⟩, jsonOption]

/-- The options and files that were given. -/
structure Given where
  options : List (String × String) := []
  files : List String := []

namespace Given

/-- Whether an option was given. -/
def has (given : Given) (name : String) : Bool :=
  (given.options.lookup name).isSome

/-- Adds an option, which must not be there yet; a flag has no value. -/
def addOption (given : Given) (spec : OptionSpec) (value : String) : Except Refusal Given :=
  if given.has spec.name then .error .misuse
  else if (spec.accepts.map (· value)).getD true then
    .ok { given with options := (spec.name, value) :: given.options }
  else .error .misuse

/-- Adds files, of which there must be `limit` in all at most. -/
def addFiles (given : Given) (limit : Nat) (files : List String) : Except Refusal Given :=
  if given.files.length + files.length ≤ limit then
    .ok { given with files := given.files ++ files }
  else .error .misuse

end Given

/-- What an argument is at first sight. -/
inductive Shape where
  /-- The end of options. -/
  | lastOption
  /-- An option with two dashes, perhaps with its value. -/
  | long (name : String) (value : Option String)
  /-- One or more options with one dash. -/
  | short (letters : List Char)
  | word
  deriving DecidableEq

/-- The shape of an argument. -/
def shapeOf (argument : String) : Shape :=
  match argument.toList with
  | ['-', '-'] => .lastOption
  | '-' :: '-' :: cs =>
    let name := String.ofList (cs.takeWhile (· ≠ '='))
    .long name ((cs.dropWhile (· ≠ '=')).tail?.map String.ofList)
  | '-' :: c :: cs => .short (c :: cs)
  | _ => .word

/-- Where reading a command's options has come to: to the end, or to a word
that is not one of its files. -/
inductive Reached where
  | theEnd (given : Given)
  | theWord (given : Given) (word : String) (rest : List String)

/-- Reads the arguments of a command with a number of files at most, up to the
first word if it has none. -/
def readOptions (topic : Topic) (specs : List OptionSpec) (fileLimit : Nat) :
    Given → List String → Except Refusal Reached
  | given, [] => .ok (.theEnd given)
  | given, argument :: rest =>
    match shapeOf argument with
    | .lastOption => (given.addFiles fileLimit rest).map .theEnd
    | .short letters => .error (if letters.head? = some 'h' then .help topic else .misuse)
    | .word =>
      if fileLimit = 0 then .ok (.theWord given argument rest)
      else do readOptions topic specs fileLimit (← given.addFiles fileLimit [argument]) rest
    | .long name value =>
      if name = "help" then .error (if value.isNone then .help topic else .misuse)
      else
        match specs.find? (·.name = name), value with
        | none, _ => .error .misuse
        | some spec, some value =>
          if spec.accepts.isNone then .error .misuse
          else do readOptions topic specs fileLimit (← given.addOption spec value) rest
        | some spec, none =>
          if spec.accepts.isNone then do
            readOptions topic specs fileLimit (← given.addOption spec "") rest
          else
            match rest with
            | [] => .error .misuse
            | next :: rest =>
              if shapeOf next = .word then do
                readOptions topic specs fileLimit (← given.addOption spec next) rest
              else .error .misuse

/-! ## Commands -/

/-- The topic of a command's name. -/
def topicOf? (name : String) : Option Topic :=
  if name = "steps" then some .steps
  else if name = "run" then some .run
  else if name = "config" then some .config
  else if name = "help" then some .help
  else none

/-- The topic that the arguments of the `help` command name. -/
def helpTopic : List String → Refusal
  | [] => .help .program
  | [name] =>
    match topicOf? name with
    | some topic => .help topic
    | none => .misuse
  | _ => .misuse

/-- The arguments of a command that is not read up to a word. -/
def readCommand (topic : Topic) (specs : List OptionSpec) (fileLimit : Nat)
    (arguments : List String) : Except Refusal Given := do
  match ← readOptions topic specs fileLimit {} arguments with
  | .theEnd given => return given
  | .theWord _ _ _ => throw .misuse

/-- The file of a command that needs one. -/
def theFile (given : Given) : Except Refusal String :=
  match given.files with
  | [file] => .ok file
  | _ => .error .misuse

/-- A command with its arguments, and what was given with it. -/
def commandOf (topic : Topic) (arguments : List String) : Except Refusal (Command × Given) :=
  match topic with
  | .steps => do
    let given ← readCommand .steps [configOption, jsonOption] 1 arguments
    return (.steps (← theFile given) (given.has "json"), given)
  | .run => do
    let given ← readCommand .run runOptions 1 arguments
    let speed := (given.options.lookup "speed").bind Number.readFloat?
    let intervalMs := (given.options.lookup "interval-ms").bind Number.readNat?
    return (.run (← theFile given) speed intervalMs (given.has "realtime") (given.has "json"), given)
  | .config => do
    let given ← readCommand .config [configOption] 0 arguments
    return (.config, given)
  | .help => .error (helpTopic arguments)
  | .program => .error .misuse

/-- The invocation that arguments denote. -/
def Invocation.read (arguments : List String) : Except Refusal Invocation := do
  match ← readOptions .program [configOption] 0 {} arguments with
  | .theEnd _ => throw .misuse
  | .theWord given word rest =>
    match topicOf? word with
    | none => throw .misuse
    | some topic =>
      let (command, inner) ← commandOf topic rest
      return ⟨(inner.options.lookup "config").or (given.options.lookup "config"), command⟩

end EventLoop.CommandLine
