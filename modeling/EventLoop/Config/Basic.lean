import EventLoop.Engine.Trace
import EventLoop.Number.Decimal

/-!
# Configurations

The settings of an engine, of the ticker that drives it, and of the log level.
A configuration is valid if the trace has room, ticks take time, and the speed
is a positive number.
-/

namespace EventLoop

/-- The settings of an engine. -/
structure EngineConfig where
  /-- The number of events that the trace holds. -/
  traceCapacity : Nat := TraceLog.defaultCapacity
  deriving DecidableEq

/-- The settings of a ticker. -/
structure TickerConfig where
  /-- The milliseconds between two ticks, and the virtual time that a tick
  takes at speed one. -/
  intervalMs : Nat := 1000
  speed : Float := 1
  /-- The number of ticks after which a run stops. -/
  maxTicks : Nat := 10000
  /-- Whether time jumps to the next timer when there is nothing to run. -/
  fastForward : Bool := true

/-- The virtual time that a tick takes: the interval times the speed, rounded
to whole milliseconds and cut off at both ends of the range. -/
def TickerConfig.virtualStepMs (settings : TickerConfig) : Nat :=
  Number.roundToNat64 (Number.nearest false settings.intervalMs 1 * settings.speed)

/-- The settings of the log. -/
structure LoggingConfig where
  level : String := "info"
  deriving DecidableEq

/-- All settings. -/
structure Config where
  engine : EngineConfig := {}
  ticker : TickerConfig := {}
  logging : LoggingConfig := {}

/-- Why there is no configuration. -/
inductive ConfigError where
  /-- A source of settings cannot be read. -/
  | unreadable
  /-- A setting has no value of its type. -/
  | unconvertible
  | noTraceCapacity
  | noInterval
  | badSpeed (speed : Float)
  | fileNotFound (path : String)
  /-- A setting is too large to be written down. -/
  | unwritable

namespace ConfigError

/-- The text of an error. -/
def message : ConfigError → String
  | .unreadable => "Failed to read configuration"
  | .unconvertible => "Invalid configuration"
  | .noTraceCapacity => "engine.trace_capacity must be at least 1"
  | .noInterval => "ticker.interval_ms must be at least 1"
  | .badSpeed speed => "ticker.speed must be a positive number, got " ++ Number.decimalText speed
  | .fileNotFound path => "Config file not found: " ++ path
  | .unwritable => "Failed to serialize configuration"

end ConfigError

/-- Whether a speed is a positive number. -/
def isValidSpeed (speed : Float) : Bool :=
  speed.isFinite && speed > 0

/-- Checks a configuration; the first fault counts. -/
def Config.validate (config : Config) : Except ConfigError Config :=
  if config.engine.traceCapacity = 0 then .error .noTraceCapacity
  else if config.ticker.intervalMs = 0 then .error .noInterval
  else if isValidSpeed config.ticker.speed then .ok config
  else .error (.badSpeed config.ticker.speed)

end EventLoop
