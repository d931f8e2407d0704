/-
# A gate that opens after a number of releases

Waiters pass the gate once it has been released as often as it has permits.  A waiter looks at
the number of releases that are missing; if there are some, it listens for the notice that the
gate is open, and sleeps until it hears it.  Looking and listening are two steps, so the gate
may open in between.  The release that opens the gate gives one notice.  It wakes the waiter
that sleeps longest, and that one alone; if nobody sleeps, it is kept for the first that
listens.  A waiter that has heard the notice looks again.
-/
namespace FleetAgent.Shell

/-- The state of a waiter. -/
inductive Waiter where
  /-- It is about to look at the number of missing releases. -/
  | looking
  /-- It has seen that releases are missing, and is about to listen. -/
  | listening
  | asleep
  | finished
deriving DecidableEq, Repr, Inhabited

/-- A gate with its waiters in the order in which they came. -/
structure Gate where
  remaining : Nat
  /-- Whether a notice is kept that nobody has heard. -/
  noticed : Bool
  waiters : List Waiter
deriving DecidableEq, Repr, Inhabited

namespace Gate

/-- A gate with a number of permits. -/
def ofPermits (permits : Nat) : Gate := ⟨permits, false, []⟩

/-- Wakes the waiter that sleeps longest, if any sleeps. -/
def wakeFirst? : List Waiter → Option (List Waiter)
  | [] => none
  | .asleep :: ws => some (.looking :: ws)
  | w :: ws => (wakeFirst? ws).map (w :: ·)

/-- Gives a notice. -/
def notify (g : Gate) : Gate :=
  match wakeFirst? g.waiters with
  | some waiters => { g with waiters := waiters }
  | none => { g with noticed := true }

/-- Takes one permit; tells whether the gate opens by that.  Nothing is taken from an open
gate. -/
def decrement (g : Gate) : Bool × Gate :=
  match g.remaining with
  | 0 => (false, g)
  | n + 1 => (n == 0, { g with remaining := n })

/-- Releases one permit. -/
def release (g : Gate) : Gate :=
  if g.decrement.1 then g.decrement.2.notify else g.decrement.2

/-- Adds a waiter. -/
def wait (g : Gate) : Gate :=
  { g with waiters := g.waiters ++ [.looking] }

/-- The state of a waiter after it has had the chance to look. -/
def look (remaining : Nat) : Waiter → Waiter
  | .looking => if remaining = 0 then .finished else .listening
  | w => w

/-- Lets every waiter look that is about to. -/
def lookAll (g : Gate) : Gate :=
  { g with waiters := g.waiters.map (look g.remaining) }

/-- Waiters after those that are about to have listened, and whether a notice is kept that they
have not heard. -/
def listen : Bool → List Waiter → Bool × List Waiter
  | noticed, [] => (noticed, [])
  | noticed, w :: ws =>
    if w = .listening then
      ((listen false ws).1, (if noticed then .looking else .asleep) :: (listen false ws).2)
    else ((listen noticed ws).1, w :: (listen noticed ws).2)

/-- Lets every waiter listen that is about to. -/
def listenAll (g : Gate) : Gate :=
  { g with noticed := (listen g.noticed g.waiters).1, waiters := (listen g.noticed g.waiters).2 }

/-- Polls every waiter once. -/
def pollAll (g : Gate) : Gate :=
  -- a kept notice means an open gate, where nobody who looks goes on to listen
  g.lookAll.listenAll

end Gate

/-- What can happen to a gate. -/
inductive GateStep where
  | release
  | wait
  | nothing
deriving DecidableEq, Repr, Inhabited

namespace Gate

/-- A step, after which every waiter is polled once. -/
def step (g : Gate) : GateStep → Gate
  | .release => g.release.pollAll
  | .wait => g.wait.pollAll
  | .nothing => g.pollAll

/-- The gates after each of a row of steps. -/
def states : Gate → List GateStep → List Gate
  | _, [] => []
  | g, s :: steps => g.step s :: states (g.step s) steps

end Gate

end FleetAgent.Shell
