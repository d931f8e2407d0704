/-
# Durations

A duration is a number of seconds of 64 bits and a number of nanoseconds below one second.
Doubling carries full seconds over and stops at the longest duration.  The view of a duration
is its number of nanoseconds (`toNanos`).
-/
import FleetAgent.Numeral.Width

namespace FleetAgent.Time

/-- The nanoseconds in a second. -/
def nanosPerSecond : Nat := 1000000000

/-- A duration. -/
structure Duration where
  secs : Nat
  nanos : Nat
  secs_lt : secs < Numeral.unsigned64End
  nanos_lt : nanos < nanosPerSecond
deriving DecidableEq, Repr

namespace Duration

/-- The duration in nanoseconds. -/
def toNanos (d : Duration) : Nat :=
  d.secs * nanosPerSecond + d.nanos

/-- The longest duration. -/
def longest : Duration where
  secs := Numeral.unsigned64End - 1
  nanos := 999999999
  secs_lt := by decide
  nanos_lt := by decide

/-- No time at all. -/
def zero : Duration where
  secs := 0
  nanos := 0
  secs_lt := by decide
  nanos_lt := by decide

/-- A duration of seconds and nanoseconds; full seconds are carried over, and what is too
long becomes the longest duration. -/
def ofParts (secs nanos : Nat) : Duration :=
  if h : secs + nanos / nanosPerSecond < Numeral.unsigned64End then
    ⟨secs + nanos / nanosPerSecond, nanos % nanosPerSecond, h, Nat.mod_lt _ (by decide)⟩
  else longest

/-- A duration of milliseconds. -/
def ofMillis (ms : Nat) : Duration :=
  ofParts (ms / 1000) (ms % 1000 * 1000000)

/-- A duration of full seconds. -/
def ofSecs (secs : Nat) : Duration :=
  ofParts secs 0

/-- The full milliseconds of a duration. -/
def toMillis (d : Duration) : Nat :=
  d.secs * 1000 + d.nanos / 1000000

/-- Twice a duration, or the longest duration if that is too long. -/
def double (d : Duration) : Duration :=
  ofParts (2 * d.secs) (2 * d.nanos)

/-- The shorter of two durations. -/
def shorter (a b : Duration) : Duration :=
  if b.secs < a.secs ∨ (b.secs = a.secs ∧ b.nanos < a.nanos) then b else a

end Duration

end FleetAgent.Time
