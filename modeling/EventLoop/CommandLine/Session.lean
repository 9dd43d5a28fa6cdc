import EventLoop.CommandLine.Directory
import EventLoop.CommandLine.Help
import EventLoop.CommandLine.Listing
import EventLoop.CommandLine.Variables
import EventLoop.Config.Load
import EventLoop.Config.Text
import EventLoop.Simulation.Record

/-!
# Sessions

What the program answers to its arguments, in given surroundings.

A session first adds the variables of the variable file to the environment,
then loads the configuration, and then carries out the command.  The settings
file is the one that the arguments name, or else the environment; it has to
exist.  If neither names one, it is `loopviz.toml`, where that exists.
-/

namespace EventLoop.CommandLine

/-- What a session sees of the world around it. -/
structure Surroundings where
  /-- The variables of the environment, in the order in which they were set. -/
  environment : List (String × String)
  /-- The text of the variable file, if there is one. -/
  variableFile : Option String
  /-- The text of the file at a path. -/
  fileText : String → Except FileError String
  /-- The standard input. -/
  input : Except FileError String

/-- What a session answers to its arguments. -/
inductive Answer where
  | text (content : String)
  | record (content : Json)
  /-- Texts between which some milliseconds pass, and then an answer. -/
  | paced (intervalMs : Nat) (parts : List String) (ending : Answer)
  /-- The command could not be carried out. -/
  | failure (message : String)
  /-- The arguments are wrong. -/
  | misuse
  /-- The session broke down: something is too large for the memory, or no
  value at all. -/
  | breakdown (reason : String)

namespace Answer

/-- The exit code of a session. -/
def code : Answer → Nat
  | .text _ | .record _ => 0
  | .paced _ _ ending => ending.code
  | .failure _ => 1
  | .misuse => 2
  | .breakdown _ => 101

/-- What a session writes to the standard output. -/
def output : Answer → String
  | .text content => content
  | .record content => content.pretty ++ "\n"
  | .paced _ parts ending => String.join parts ++ ending.output
  | .failure _ | .misuse | .breakdown _ => ""

/-- The record that a session writes, if it writes one. -/
def record? : Answer → Option Json
  | .record content => some content
  | .paced _ _ ending => ending.record?
  | .text _ | .failure _ | .misuse | .breakdown _ => none

/-- What a session that did not succeed says, as a line. -/
def errorLine? : Answer → Option String
  | .text _ | .record _ => none
  | .paced _ _ ending => ending.errorLine?
  | .failure message => some ("Error: " ++ message)
  | .misuse => some "error: invalid arguments, try --help"
  | .breakdown reason => some ("error: " ++ reason)

end Answer

/-! ## Surroundings -/

/-- The variable that names the settings file. -/
def pathVariable : String := "LOOPVIZ_CONFIG_PATH"

/-- The settings file that is used unless another one is named. -/
def defaultPath : String := "loopviz.toml"

/-- The environment of a session, if it can hold all variables: the arguments
win over the environment, and that over the variable file. -/
def environmentOf (environment : List (String × String))
    (variableFile configPath : Option String) : Option (List (String × String)) :=
  let environment := match configPath with
    | some path => (pathVariable, path) :: environment
    | none => environment
  match variableFile with
  | some text => addVariables environment text
  | none => some environment

/-- The path of the settings file, named or not. -/
def settingsPathOf (environment : List (String × String)) : String :=
  (environment.lookup pathVariable).getD defaultPath

/-- The text of the settings file at a path, or of the one that stands in for a
directory there. -/
def settingsText (surroundings : Surroundings) (path : String) : Except FileError String :=
  match surroundings.fileText path, standIn? path with
  | .error .isDirectory, some other =>
    (surroundings.fileText other).mapError fun _ => .isDirectory
  | text, _ => text

/-- The settings file that is named, or the one that happens to exist and can be
read. -/
def settingsFile (surroundings : Surroundings) (environment : List (String × String)) :
    Except ConfigError (Option SettingsFile) :=
  match environment.lookup pathVariable with
  | some path =>
    match settingsText surroundings path with
    | .ok text => .ok (some ⟨path, true, some text⟩)
    | .error .notFound | .error .notDirectory => .ok (some ⟨path, true, none⟩)
    | .error _ => .error .unreadable
  | none =>
    match settingsText surroundings defaultPath with
    | .ok text => .ok (some ⟨defaultPath, false, some text⟩)
    | .error _ => .ok none

/-- The configuration of a session in an environment. -/
def configOf (surroundings : Surroundings) (environment : List (String × String)) :
    Except ConfigError Config := do
  Config.load (← settingsFile surroundings environment) environment

/-- The text of a script, where a dash stands for the standard input; an error
says what could not be read. -/
def scriptText (surroundings : Surroundings) (file : String) : Except String String :=
  if file = "-" then
    surroundings.input.mapError fun e => "Failed to read script from stdin: " ++ e.message
  else
    (surroundings.fileText file).mapError fun e =>
      "Failed to read script " ++ file ++ ": " ++ e.message

/-! ## Commands -/

/-- The answer to a run on the wall clock: a report of each tick as it happens,
unless records are asked for, and how the run ended. -/
def realtimeAnswer (json : Bool) (intervalMs : Nat) (reports : List TickReport)
    (report : RunReport) : Answer :=
  if json then .paced intervalMs (reports.map fun _ => "") (.record report.toJson)
  else
    .paced intervalMs (reports.map fun report => linesText (tickLines report))
      (.text (linesText (reportLines report)))

/-- The answer to a run as fast as possible: its trace, and how it ended. -/
def runAnswer (json : Bool) (report : RunReport) : Answer :=
  if json then .record report.toJson
  else .text (linesText (traceLines report.trace ++ reportLines report))

/-- The number of events that the memory has room for at most: an event takes 72
bytes, and all of them less than half of what 64 bits can address. -/
def largestTrace : Nat := 0x7ffffffffffffff8 / 72

/-- Carries out a command under a configuration; an error is what to say. -/
def carryOut (surroundings : Surroundings) (config : Config) : Command → Except String Answer
  | .steps file json => do
    let steps := stepsOf (← scriptText surroundings file)
    return if json then .record (stepsToJson steps) else .text (linesText (stepLines steps))
  | .run file speed intervalMs realtime json => do
    let ticker := { config.ticker with
      speed := speed.getD config.ticker.speed
      intervalMs := intervalMs.getD config.ticker.intervalMs }
    let config ← ({ config with ticker }.validate).mapError ConfigError.message
    let script ← scriptText surroundings file
    if largestTrace < config.engine.traceCapacity then
      return .breakdown "there is no room for a trace of this capacity"
    let simulation := Simulation.load script config
    if realtime then
      let (reports, ticker) := (Ticker.ofSimulation simulation).run fun _ => []
      return realtimeAnswer json config.ticker.intervalMs reports ticker.simulation.report
    else return runAnswer json simulation.run.report
  | .config => (config.toText.map .text).mapError ConfigError.message

/-- The answer to an invocation. -/
def answerTo (surroundings : Surroundings) (invocation : Invocation) : Answer :=
  match environmentOf surroundings.environment surroundings.variableFile
      invocation.configPath with
  | none => .breakdown "a variable cannot hold a null character"
  | some environment =>
    let outcome := do
      let config ← (configOf surroundings environment).mapError ConfigError.message
      carryOut surroundings config invocation.command
    match outcome with
    | .ok reply => reply
    | .error message => .failure message

/-- The answer to arguments that are no invocation. -/
def Refusal.answer : Refusal → Answer
  | .help topic => .text topic.page.text
  | .misuse => .misuse

/-- The answer to arguments. -/
def answer (surroundings : Surroundings) (arguments : List String) : Answer :=
  match Invocation.read arguments with
  | .error refusal => refusal.answer
  | .ok invocation => answerTo surroundings invocation

end EventLoop.CommandLine
