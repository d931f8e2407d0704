/-
# Answering requests for shells

A request that is valid fetches a token, and then asks the registry for a slot.  With a slot
a session is started, which gives the slot back when it ends, however it ends.  Fetching the
token takes time, so other things may happen between a request and its token.  Slots can also
be taken directly, and are then given back by whoever has taken them.
-/
import FleetAgent.Shell.Registry
import FleetAgent.Shell.Start

namespace FleetAgent.Shell

/-- A request whose token is being fetched. -/
structure PendingRequest where
  number : Nat
  request : Request
deriving DecidableEq, Repr, Inhabited

/-- A session that has a slot. -/
structure LiveSession where
  /-- The number of its request. -/
  number : Nat
  request : Request
  token : String
deriving DecidableEq, Repr, Inhabited

/-- The handler of requests. -/
structure Desk where
  registry : Registry
  /-- The number of requests so far, which is the number of the next one. -/
  requests : Nat
  /-- The number of tokens fetched so far. -/
  tokenCalls : Nat
  fetching : List PendingRequest
  sessions : List LiveSession
  /-- The ids of the slots that were taken directly. -/
  direct : List String
deriving DecidableEq, Repr, Inhabited

namespace Desk

/-- The handler before the first request. -/
def ofMax (maxSessions : Nat) : Desk := ⟨.ofMax maxSessions, 0, 0, [], [], []⟩

/-- What can happen. -/
inductive Event where
  /-- A request arrives. -/
  | request (r : Request)
  /-- The token of a request is there, or is refused. -/
  | token (n : Nat) (result : Except Auth.TokenError String)
  /-- The session of a request ends, or could not be started. -/
  | ended (n : Nat) (result : Except StartError Unit)
  /-- A slot is taken directly. -/
  | acquire (id : String)
  /-- A slot that was taken directly is given back. -/
  | release (id : String)
deriving Repr

/-- Starts the session of a request if there is a slot for it. -/
def openSession (d : Desk) (n : Nat) (r : Request) (token : String) : Desk :=
  let (granted, registry) := d.registry.acquire r.session
  if granted then
    { d with registry := registry, sessions := d.sessions ++ [⟨n, r, token⟩] }
  else d

/-- The step of an event. -/
def step (d : Desk) : Event → Desk
  | .request r =>
    match r.validate with
    | .ok _ =>
      { d with
        requests := d.requests + 1
        tokenCalls := d.tokenCalls + 1
        fetching := d.fetching ++ [⟨d.requests, r⟩] }
    | .error _ => { d with requests := d.requests + 1 }
  | .token n result =>
    match d.fetching.find? (·.number == n) with
    | none => d
    | some p =>
      let d := { d with fetching := d.fetching.filter (·.number != n) }
      match result with
      | .ok token => d.openSession n p.request token
      | .error _ => d
  | .ended n _ =>
    match d.sessions.find? (·.number == n) with
    | none => d
    | some s =>
      -- the slot goes with the session, whatever that has come to
      { d with
        registry := d.registry.drop s.request.session
        sessions := d.sessions.filter (·.number != n) }
  | .acquire id =>
    let (granted, registry) := d.registry.acquire id
    if granted then { d with registry := registry, direct := id :: d.direct } else d
  | .release id =>
    if d.direct.contains id then
      { d with registry := d.registry.drop id, direct := d.direct.erase id }
    else d

/-- The steps of a row of events. -/
def run (d : Desk) (events : List Event) : Desk :=
  events.foldl step d

end Desk

end FleetAgent.Shell
