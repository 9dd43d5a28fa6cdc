import EventLoop.Config.Basic
import EventLoop.Toml.Writer

/-!
# The text of a configuration

A configuration as a settings text.  What it says is the configuration itself,
with every setting spelled out.
-/

namespace EventLoop.Config

/-- The text of a configuration, unless a setting is too large for it. -/
def toText (config : Config) : Except ConfigError String :=
  match Toml.integerText? config.engine.traceCapacity,
      Toml.integerText? config.ticker.intervalMs, Toml.integerText? config.ticker.maxTicks with
  | some traceCapacity, some intervalMs, some maxTicks =>
    .ok <| String.join
      ["[engine]\n",
       "trace_capacity = ", traceCapacity, "\n",
       "\n[ticker]\n",
       "interval_ms = ", intervalMs, "\n",
       "speed = ", Toml.numberText config.ticker.speed, "\n",
       "max_ticks = ", maxTicks, "\n",
       "fast_forward = ", Toml.boolText config.ticker.fastForward, "\n",
       "\n[logging]\n",
       "level = ", Toml.quotedText config.logging.level, "\n"]
  | _, _, _ => .error .unwritable

end EventLoop.Config
