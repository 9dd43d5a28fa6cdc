import EventLoop.CommandLine.Session

/-!
# The program

The session of a process: its arguments, its environment, the files that it
can see and its standard streams.
-/

namespace EventLoop.CommandLine

/-- A text, if bytes encode one. -/
def textOfBytes (bytes : ByteArray) : Except FileError String :=
  match String.fromUTF8? bytes with
  | some text => .ok text
  | none => .error .notText

/-- Reads a file. -/
def readFile (path : String) : IO (Except FileError String) := do
  try
    return textOfBytes (← IO.FS.readBinFile path)
  catch
    | .noFileOrDirectory .. => return .error .notFound
    | .inappropriateType .. => return .error .notDirectory
    | _ => return .error .isDirectory

/-- The names and values in the record that the system keeps of an
environment, where each entry ends in a null character. -/
def environmentOfText (text : String) : List (String × String) :=
  (text.splitOn "\x00").filterMap fun entry =>
    match entry.splitOn "=" with
    | name :: value :: rest => some (name, "=".intercalate (value :: rest))
    | _ => none

/-- The environment of this process. -/
def readEnvironment : IO (List (String × String)) := do
  match ← readFile "/proc/self/environ" with
  | .ok text => return environmentOfText text
  | .error _ => return []

/-- The paths of `.env` in a directory and in those above it, where `depth`
bounds their number. -/
def variableFilePaths : Nat → List String → List String
  | 0, _ => []
  | depth + 1, names =>
    ("/" ++ "/".intercalate (names ++ [".env"])) ::
      (if names.isEmpty then [] else variableFilePaths depth names.dropLast)

/-- The text of the first file that exists. -/
def readFirst : List String → IO (Option String)
  | [] => return none
  | path :: paths => do
    match ← readFile path with
    | .ok text => return some text
    | .error .notFound | .error .notDirectory | .error .isDirectory => readFirst paths
    | .error .notText => return none

/-- The surroundings of this process, as far as an invocation depends on
them. -/
def readSurroundings (invocation : Invocation) : IO Surroundings := do
  let environment ← readEnvironment
  let names := ((← IO.currentDir).toString.splitOn "/").filter (· ≠ "")
  let variableFile ← readFirst (variableFilePaths (names.length + 1) names)
  let settingsPath := settingsPathOf
    ((environmentOf environment variableFile invocation.configPath).getD environment)
  let scriptPath := invocation.command.file?.getD ""
  let paths := settingsPath :: scriptPath :: (standIn? settingsPath).toList
  let files ← paths.mapM fun path => do return (path, ← readFile path)
  let mut input := .ok ""
  if scriptPath = "-" then
    input := textOfBytes (← (← IO.getStdin).readBinToEnd)
  return {
    environment, variableFile, input
    fileText := fun path => (files.lookup path).getD (.error .notFound) }

/-- Writes what a session answers, at its pace. -/
def writeAnswer : Answer → IO Unit
  | .paced intervalMs parts ending => do
    let output ← IO.getStdout
    for part in parts do
      output.putStr part
      output.flush
      IO.sleep intervalMs.toUInt32
    writeAnswer ending
  | reply => do
    (← IO.getStdout).putStr reply.output
    for line in reply.errorLine?.toList do
      IO.eprintln line

end EventLoop.CommandLine

open EventLoop.CommandLine in
/-- Answers the arguments of the process. -/
def main (arguments : List String) : IO UInt32 := do
  let reply ← match Invocation.read arguments with
    | .error refusal => pure refusal.answer
    | .ok invocation => pure (answerTo (← readSurroundings invocation) invocation)
  writeAnswer reply
  return reply.code.toUInt32
