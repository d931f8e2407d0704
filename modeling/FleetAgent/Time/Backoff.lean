/-
# Growing delays

A device that loses its connection waits before it tries again, twice as long after each
attempt up to a greatest delay.  A reset returns to the initial delay.
-/
import FleetAgent.Time.Duration

namespace FleetAgent.Time

/-- A generator of delays. -/
structure Backoff where
  current : Duration
  initial : Duration
  greatest : Duration
deriving DecidableEq, Repr

namespace Backoff

/-- A generator that starts with `initial`, or with `greatest` if that is shorter. -/
def ofBounds (initial greatest : Duration) : Backoff :=
  let first := initial.shorter greatest
  ⟨first, first, greatest⟩

/-- The delay to wait now, and the generator of the delays after it. -/
def next (b : Backoff) : Duration × Backoff :=
  (b.current, { b with current := b.current.double.shorter b.greatest })

/-- The generator with its initial delay next. -/
def reset (b : Backoff) : Backoff :=
  { b with current := b.initial }

end Backoff

/-- What a user of a generator does with it. -/
inductive BackoffStep where
  | next
  | reset
deriving DecidableEq, Repr

/-- The delays handed out by a row of steps, with nothing for a reset. -/
def Backoff.run (b : Backoff) : List BackoffStep → List (Option Duration)
  | [] => []
  | .next :: steps => some b.next.1 :: Backoff.run b.next.2 steps
  | .reset :: steps => none :: Backoff.run b.reset steps

end FleetAgent.Time
