/-
# The token cache

Any number of callers may ask for a token at the same time.  The cache is behind a lock that
callers get in the order in which they ask.  A caller that has the lock is served from the
cache while the cached token is valid; otherwise it registers the device, and keeps the lock
until the registration ends.  A registration that succeeds replaces the cached token, and one
that fails leaves it alone.

A call is suspended while it waits for the lock and while it registers.  Each of these ends by
an event of its own, and other events may come in between.  The clock is read anew whenever
the time matters; its readings come with the events, and may be arbitrary.
-/
import FleetAgent.Auth.Token
import FleetAgent.Time.Duration

namespace FleetAgent.Auth

/-- What a provider of tokens is made for. -/
structure Provider where
  base : String
  device : Device.Identity
  key : Device.Key
  graceMs : Nat

namespace Provider

/-- The provider with a grace of some length, which counts as a number of full milliseconds in 64
bits. -/
def ofGrace (base : String) (device : Device.Identity) (key : Device.Key)
    (grace : Time.Duration) : Provider :=
  ⟨base, device, key, grace.toMillis % Numeral.unsigned64End⟩

/-- A registration in progress: whose it is, and the moment it was made at. -/
structure Refresh where
  caller : Nat
  timestamp : Nat
deriving DecidableEq, Repr, Inhabited

/-- The state of a provider. -/
structure State where
  cached : Option Token
  /-- The number of calls so far, which is the number of the next caller. -/
  calls : Nat
  /-- The callers that wait for the lock, in their order. -/
  waiting : List Nat
  /-- The caller that has the lock. -/
  holder : Option Nat
  /-- The registrations in progress. -/
  refreshes : List Refresh
deriving DecidableEq, Repr, Inhabited

/-- The state before the first call. -/
def State.initial : State := ⟨none, 0, [], none, []⟩

/-- What can happen. -/
inductive Event where
  | call
  /-- The caller that waits longest gets the lock, if that is free.  The clock reads `now` when
  it looks at the cached token, and `timestamp` if it registers. -/
  | locked (now timestamp : Nat)
  /-- The registration of a caller ends. -/
  | reply (caller : Nat) (r : Http.Reply)
deriving DecidableEq, Repr, Inhabited

/-- What a step does. -/
inductive Effect where
  /-- A caller that has the lock looks at the cache. -/
  | looked (caller now : Nat)
  /-- A caller begins a registration. -/
  | began (caller timestamp : Nat)
  /-- The request of a registration is sent. -/
  | sent (caller : Nat) (r : Http.Request)
  /-- The registration of a caller ends. -/
  | ended (caller : Nat) (r : Http.Reply)
  /-- A token replaces the cached one. -/
  | cached (t : Token)
  /-- A call returns. -/
  | returned (caller : Nat) (result : Except TokenError String)
  /-- A call crashes. -/
  | crashed (caller : Nat)
deriving Repr

/-- The cached token that is valid at a moment. -/
def State.valid? (s : State) (now : Nat) : Option Token :=
  s.cached.filter (·.isValidAt now)

/-- The step of a caller that gets the lock.  The lock is free again at once, unless a request
is sent. -/
def onLocked (p : Provider) (s : State) (caller now timestamp : Nat) : State × List Effect :=
  match s.valid? now with
  | some t => (s, [.looked caller now, .returned caller (.ok t.value)])
  | none =>
    match registration p.base p.device p.key timestamp with
    | .error e =>
      (s, [.looked caller now, .began caller timestamp, .returned caller (.error (.key e))])
    | .ok request =>
      ({ s with holder := some caller, refreshes := s.refreshes ++ [⟨caller, timestamp⟩] },
        [.looked caller now, .began caller timestamp, .sent caller request])

/-- The step of a registration that ends.  Its caller gives the lock back, whatever it has come
to. -/
def onReply (p : Provider) (s : State) (refresh : Refresh) (r : Http.Reply) :
    State × List Effect :=
  let free := { s with holder := none, refreshes := s.refreshes.erase refresh }
  match outcome p.graceMs refresh.timestamp r with
  | .granted t =>
    ({ free with cached := some t },
      [.ended refresh.caller r, .cached t, .returned refresh.caller (.ok t.value)])
  | .refused e => (free, [.ended refresh.caller r, .returned refresh.caller (.error e)])
  | .crashed => (free, [.ended refresh.caller r, .crashed refresh.caller])

/-- The step of an event.  A lock that is not free is not given to anybody, and a reply
without a registration in progress changes nothing. -/
def step (p : Provider) (s : State) : Event → State × List Effect
  | .call => ({ s with calls := s.calls + 1, waiting := s.waiting ++ [s.calls] }, [])
  | .locked now timestamp =>
    match s.holder, s.waiting with
    | none, caller :: rest => onLocked p { s with waiting := rest } caller now timestamp
    | _, _ => (s, [])
  | .reply caller r =>
    match s.refreshes.find? (·.caller == caller) with
    | some refresh => onReply p s refresh r
    | none => (s, [])

/-- The steps of a row of events. -/
def run (p : Provider) : State → List Event → State × List Effect
  | s, [] => (s, [])
  | s, e :: es =>
    let (s, first) := step p s e
    let (s, rest) := run p s es
    (s, first ++ rest)

/-- The calls of `n` callers at the same time when nobody else calls, whose registrations all
end with the same reply. -/
def fetchMany (p : Provider) (now : Nat) (r : Http.Reply) (n : Nat) (s : State) :
    State × List Effect :=
  run p s (List.replicate n .call
    ++ (List.range' s.calls n).flatMap fun caller => [.locked now now, .reply caller r])

/-- The results that callers get, in the order in which they get them. -/
def results (effects : List Effect) : List (Except TokenError String) :=
  effects.filterMap fun
    | .returned _ result => some result
    | _ => none

/-- A registration of its own, which does not use the cache. -/
def register (p : Provider) (now : Nat) (r : Http.Reply) :
    Registration × List Http.Request :=
  match registration p.base p.device p.key now with
  | .error e => (.refused (.key e), [])
  | .ok request => (outcome p.graceMs now r, (r.seen request).toList)

end Provider

end FleetAgent.Auth
