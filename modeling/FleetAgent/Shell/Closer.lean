/-
# Closing a session once

A session is closed at most once, by whichever part of it ends first.  Closing kills the
processes of the session and cancels its token.  The token is cancelled too when its parent,
the token of the whole agent, is; the session never cancels its parent.
-/
namespace FleetAgent.Shell

/-- The closer of a session with the tokens. -/
structure Closer where
  closed : Bool
  /-- How often the processes of the session were killed. -/
  kills : Nat
  /-- Whether the token of the session was cancelled itself. -/
  own : Bool
  parent : Bool
deriving DecidableEq, Repr, Inhabited

namespace Closer

/-- The closer of a new session. -/
def initial : Closer := ⟨false, 0, false, false⟩

/-- Whether the token of the session counts as cancelled. -/
def cancelled (c : Closer) : Bool :=
  c.own || c.parent

/-- Closes the session; tells whether this was the first time. -/
def close (c : Closer) : Bool × Closer :=
  if c.closed then (false, c)
  else (true, { c with closed := true, kills := c.kills + 1, own := true })

/-- Cancels the token of the session. -/
def cancel (c : Closer) : Closer :=
  { c with own := true }

/-- Cancels the parent of the token. -/
def cancelParent (c : Closer) : Closer :=
  { c with parent := true }

end Closer

/-- What can happen to a closer. -/
inductive CloserStep where
  | close
  | cancel
  | cancelParent
  | nothing
deriving DecidableEq, Repr, Inhabited

namespace Closer

/-- The result of a step, if it has one, and the closer after it. -/
def step (c : Closer) : CloserStep → Option Bool × Closer
  | .close => (some c.close.1, c.close.2)
  | .cancel => (none, c.cancel)
  | .cancelParent => (none, c.cancelParent)
  | .nothing => (none, c)

/-- The results of a row of steps with the closers after them. -/
def run : Closer → List CloserStep → List (Option Bool × Closer)
  | _, [] => []
  | c, s :: steps => c.step s :: run (c.step s).2 steps

end Closer

end FleetAgent.Shell
