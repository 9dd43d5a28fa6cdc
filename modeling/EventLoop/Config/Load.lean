import EventLoop.Config.Basic
import EventLoop.Setting.Path
import EventLoop.Toml.Layer

/-!
# Loading configurations

A configuration is put together from three layers of settings: the defaults, a
settings file, and the variables of the environment whose names start with
`loopviz__`, in any case.  Later layers win.  The file and the environment are
put together first, and their settings then on top of the defaults: a group of
the environment that replaces a single value of the file still leaves the
defaults of its other fields in place.  A setting that no field is read from is
ignored, and a field that cannot be read from its setting is an error.

The value of a variable is a truth value, an integer, a number or else a text,
whichever it is first.
-/

namespace EventLoop

/-- A settings file. -/
structure SettingsFile where
  path : String
  /-- Whether it has to exist. -/
  isRequired : Bool
  /-- Its text, if it exists. -/
  text : Option String

namespace Config

/-! ## Layers -/

/-- The settings of a configuration. -/
def toSettings (config : Config) : Setting :=
  Setting.putAll
    [("engine", .group [("trace_capacity", .integer config.engine.traceCapacity)]),
     ("logging", .group [("level", .text config.logging.level)]),
     ("ticker", .group
       [("fast_forward", .bool config.ticker.fastForward),
        ("interval_ms", .integer config.ticker.intervalMs),
        ("max_ticks", .integer config.ticker.maxTicks),
        ("speed", .number config.ticker.speed)])]
    (.group [])

/-- How the names of the variables that hold settings start. -/
def variableMark : String := "loopviz__"

/-- The path that the name of a variable denotes, in small letters: two
underscores stand for a point. -/
def pathOfVariable : List Char → List Char
  | [] => []
  | '_' :: '_' :: cs => '.' :: pathOfVariable cs
  | c :: cs => c :: pathOfVariable cs

/-- The setting that the value of a variable denotes. -/
def settingOfValue (value : String) : Setting :=
  let word := Setting.small value
  if word = "true" then .bool true
  else if word = "false" then .bool false
  else
    (((Number.readInt? value).map Setting.integer).or
      ((Number.readFloat? value).map Setting.number)).getD (.text value)

/-- The layer of an environment. -/
def layerOfEnvironment (environment : List (String × String)) : List (String × Setting) :=
  environment.filterMap fun (name, value) =>
    (Text.after? variableMark.toList (Setting.small name).toList).map fun rest =>
      (String.ofList (pathOfVariable rest), settingOfValue value)

/-! ## Fields -/

/-- The configuration that settings denote. -/
def ofSettings? (settings : Setting) : Option Config := do
  let engine ← settings.field? "engine" 0
  let ticker ← settings.field? "ticker" 1
  let logging ← settings.field? "logging" 2
  return {
    engine := { traceCapacity := ← (← engine.field? "trace_capacity" 0).toNat? }
    ticker := {
      intervalMs := ← (← ticker.field? "interval_ms" 0).toNat?
      speed := ← (← ticker.field? "speed" 1).toFloat?
      maxTicks := ← (← ticker.field? "max_ticks" 2).toNat?
      fastForward := ← (← ticker.field? "fast_forward" 3).toBool? }
    logging := { level := ← (← logging.field? "level" 0).toText? } }

/-- The valid configuration of layers on top of the defaults. -/
def ofLayers (layers : List (List (String × Setting))) : Except ConfigError Config :=
  let settings := (toSettings {}).putLayer (Setting.ofLayers layers).entries
  match ofSettings? settings with
  | some config => config.validate
  | none => .error .unconvertible

/-- The configuration of a settings text. -/
def ofText (text : String) : Except ConfigError Config :=
  match Toml.readLayer? text with
  | some layer => ofLayers [layer]
  | none => .error .unreadable

/-- The configuration of a settings file, if there is one, and an
environment. -/
def load (file : Option SettingsFile) (environment : List (String × String)) :
    Except ConfigError Config :=
  let variableLayer := layerOfEnvironment environment
  match file with
  | none => ofLayers [variableLayer]
  | some file =>
    match file.text with
    | some text =>
      match Toml.readLayer? text with
      | some layer => ofLayers [layer, variableLayer]
      | none => .error .unreadable
    | none =>
      if file.isRequired then .error (.fileNotFound file.path) else ofLayers [variableLayer]

end Config

end EventLoop
