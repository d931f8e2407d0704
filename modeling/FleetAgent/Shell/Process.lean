/-
# The process of a session

A session runs the configured program in the configured folder, in a process group of its
own.  Its two output streams are one, in the order in which they are written, and it is told
that its terminal can do nothing special.
-/
import FleetAgent.Settings.Basic
import FleetAgent.Machine.Launch

namespace FleetAgent.Shell

/-- What the process of a session has come to. -/
structure Finished where
  output : List UInt8
  status : Machine.Status
deriving DecidableEq, Repr, Inhabited

/-- The invocation of the process of a session. -/
def sessionInvocation (s : Settings.ShellSection) (input : List UInt8) : Machine.Invocation :=
  ⟨s.program, s.args, s.workingDir, [("TERM", "dumb")], input⟩

/-- Runs the process of a session with some input.  If it is killed at once, it has written
nothing. -/
def runProcess (launch : Machine.Launcher) (s : Settings.ShellSection) (input : List UInt8)
    (kill : Bool) : Except Storage.Fault Finished :=
  match launch (sessionInvocation s input) with
  | .error f => .error f
  | .ok c => if kill then .ok ⟨[], .killed Machine.Status.kill⟩ else .ok ⟨c.merged, c.status⟩

end FleetAgent.Shell
