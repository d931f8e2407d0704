/-
# Launching programs

The agent runs other programs: the client of the apply engine, the command that restarts the
device, the shell of a session.  What a program does is not its business, so everything that
runs one is given a launcher.
-/
import FleetAgent.Storage.Fault
import FleetAgent.Machine.Status

namespace FleetAgent.Machine

/-- What is run, where, and with what input. -/
structure Invocation where
  program : String
  args : List String
  workingDir : String
  environment : List (String × String)
  input : List UInt8
deriving DecidableEq, Repr, Inhabited

/-- The streams that a program writes. -/
inductive Stream where
  | out
  | err
deriving DecidableEq, Repr, Inhabited

/-- What a program has written, in order, and how it ended. -/
structure Completed where
  written : List (Stream × List UInt8)
  status : Status
deriving DecidableEq, Repr, Inhabited

/-- Everything that a program has written, both streams in one. -/
def Completed.merged (c : Completed) : List UInt8 :=
  c.written.flatMap Prod.snd

/-- What a program has written to one stream. -/
def Completed.stream (c : Completed) (s : Stream) : List UInt8 :=
  (c.written.filter fun w => w.1 == s).flatMap Prod.snd

/-- Runs a program to its end, or tells why it cannot be started. -/
abbrev Launcher := Invocation → Except Storage.Fault Completed

end FleetAgent.Machine
