/-
# The registry of live sessions

At most a configured number of sessions may be live, and no two of them under one id.  A
session that becomes live gets a slot, and gives it back when it ends.  The number of live
sessions and the set of their ids are kept apart, beside the slots that are held.
-/
namespace FleetAgent.Shell

/-- The registry. -/
structure Registry where
  maxSessions : Nat
  live : Nat
  ids : List String
  /-- The ids of the slots that are held. -/
  held : List String
deriving DecidableEq, Repr, Inhabited

namespace Registry

/-- The registry without sessions. -/
def ofMax (maxSessions : Nat) : Registry := ⟨maxSessions, 0, [], []⟩

/-- Whether a slot for an id is available. -/
def isFree (r : Registry) (id : String) : Bool :=
  r.live < r.maxSessions && !r.ids.contains id

/-- Asks for a slot. -/
def acquire (r : Registry) (id : String) : Bool × Registry :=
  if r.isFree id then
    (true, { r with live := r.live + 1, ids := id :: r.ids, held := id :: r.held })
  else (false, r)

/-- Gives a slot back. -/
def drop (r : Registry) (id : String) : Registry :=
  { r with live := r.live - 1, ids := r.ids.filter (· != id), held := r.held.erase id }

/-- Gives back a slot for an id, if one is held. -/
def release (r : Registry) (id : String) : Bool × Registry :=
  if r.held.contains id then (true, r.drop id) else (false, r)

/-- Gives back all slots. -/
def clear (r : Registry) : Registry :=
  r.held.foldl drop r

end Registry

/-- What can happen to a registry. -/
inductive RegistryStep where
  | acquire (id : String)
  | release (id : String)
  | clear
deriving DecidableEq, Repr, Inhabited

namespace Registry

/-- The result of a step and the registry after it. -/
def step (r : Registry) : RegistryStep → Bool × Registry
  | .acquire id => r.acquire id
  | .release id => r.release id
  | .clear => (true, r.clear)

/-- The results of a row of steps with the registries after them. -/
def run : Registry → List RegistryStep → List (Bool × Registry)
  | _, [] => []
  | r, s :: steps => r.step s :: run (r.step s).2 steps

end Registry

end FleetAgent.Shell
