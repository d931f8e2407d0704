/-
# Keeping the management channel up

Before every attempt to connect the device waits, with growing delays.  Where it is configured
so, an attempt that has established a connection resets the delay, however the connection has
ended.

The keeper of the channel changes by events: the wait ends, the peer accepts the connection, the
attempt ends.  The state of the channel is a value of its own, which the keeper sets when an
attempt begins, when its connection is established and when it is over.
-/
import FleetAgent.Channel.Connection
import FleetAgent.Time.Backoff

namespace FleetAgent.Channel

/-- What the keeper of the channel is about. -/
inductive Activity where
  /-- It waits before the next attempt. -/
  | waiting (delay : Time.Duration)
  /-- It gets a token and asks for a connection. -/
  | dialling
  /-- It is on an established connection. -/
  | talking
deriving DecidableEq, Repr

/-- The keeper of the channel. -/
structure Keeper where
  /-- The delays after the one that is waited for now, if one is. -/
  backoff : Time.Backoff
  /-- The time in milliseconds. -/
  now : Nat
  /-- The number of attempts so far. -/
  attempts : Nat
  status : Status
  activity : Activity
deriving DecidableEq, Repr

namespace Keeper

/-- What can happen. -/
inductive Event where
  /-- The wait is over, and an attempt begins. -/
  | woke
  /-- The connection is established. -/
  | upgraded
  /-- The attempt is over. -/
  | ended (result : Except ConnectError Session)
deriving Repr

/-- Whether an event is the end of a wait. -/
def Event.isWaking : Event → Bool
  | woke => true
  | _ => false

/-- The keeper that begins to wait. -/
def wait (backoff : Time.Backoff) (now attempts : Nat) : Keeper :=
  ⟨backoff.next.2, now, attempts, .disconnected, .waiting backoff.next.1⟩

/-- The keeper at its first wait. -/
def initial (minMs maxMs : Nat) : Keeper :=
  wait (.ofBounds (.ofMillis minMs) (.ofMillis maxMs)) 0 0

/-- How long an attempt has waited at its end for something to arrive, in milliseconds. -/
def elapsed : Except ConnectError Session → Nat
  | .ok s => s.elapsedMs
  | .error _ => 0

/-- The step of an event; one that the keeper is not about changes nothing.  `reset` is whether an
established connection resets the delay. -/
def step (reset : Bool) (k : Keeper) (e : Event) : Keeper :=
  match k.activity, e with
  | .waiting delay, .woke =>
    { k with
      now := k.now + delay.toMillis
      attempts := k.attempts + 1
      status := .connecting
      activity := .dialling }
  | .dialling, .upgraded => { k with status := .connected, activity := .talking }
  | .dialling, .ended result | .talking, .ended result =>
    wait (if reset && result.isOk then k.backoff.reset else k.backoff) (k.now + elapsed result)
      k.attempts
  | _, _ => k

/-- The keeper after a row of events. -/
def run (reset : Bool) (k : Keeper) (es : List Event) : Keeper :=
  es.foldl (step reset) k

end Keeper

/-- The events of an attempt, from the end of the wait before it. -/
def Dial.events (d : Dial) : List Keeper.Event :=
  .woke :: ((if d.status = .connected then [.upgraded] else []) ++ [.ended d.result])

end FleetAgent.Channel
