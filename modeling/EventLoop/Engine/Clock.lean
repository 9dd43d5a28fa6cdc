/-!
# The virtual clock

Virtual time is a number of milliseconds that moves only when it is told to
and never backwards.  It ends at the `horizon`: whatever would lead beyond
stops there.

The clock also numbers the timers in the order in which they are registered,
so that timers due at the same moment elapse in that order.
-/

namespace EventLoop

/-- The last moment of virtual time. -/
def horizon : Nat := 0xffffffffffffffff

/-- A moment some milliseconds later, or the horizon. -/
def later (now ms : Nat) : Nat :=
  min horizon (now + ms)

/-- The time and the number of the next timer. -/
structure Clock where
  now : Nat := 0
  nextTimer : Nat := 0
  deriving DecidableEq

namespace Clock

/-- A clock at its start. -/
def start : Clock := {}

/-- Moves on by some milliseconds. -/
def advanceBy (clock : Clock) (ms : Nat) : Clock :=
  { clock with now := later clock.now ms }

/-- Moves on to a moment, if that lies ahead. -/
def advanceTo (clock : Clock) (moment : Nat) : Clock :=
  { clock with now := max clock.now (min horizon moment) }

/-- Gives out the number of a timer. -/
def register (clock : Clock) : Nat × Clock :=
  (clock.nextTimer, { clock with nextTimer := clock.nextTimer + 1 })

end Clock

end EventLoop
