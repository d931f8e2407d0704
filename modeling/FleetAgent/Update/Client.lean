/-
# The client of the apply engine

The engine is controlled by running a program: one run hands it a payload, and another one
follows its reports on both output streams.  After an update the device is restarted by
running a configured command.
-/
import FleetAgent.Machine.Launch
import FleetAgent.Update.Fault
import FleetAgent.Update.Engine

namespace FleetAgent.Update

/-- The failure to start the client. -/
def notStarted (client : String) : Fault :=
  .engine ("failed to start " ++ client)

/-- The invocation of a program with arguments. -/
def invocation (program : String) (args : List String) : Machine.Invocation :=
  ⟨program, args, ".", [], []⟩

/-- The failure that the client reports by its status and its error output. -/
def refused (client : String) (c : Machine.Completed) : Fault :=
  .engine (client ++ " exited with " ++ c.status.text ++ ": "
    ++ Text.trim (Text.Utf8.decodeLossy (c.stream .err)))

/-- Hands a payload to the engine. -/
def applyPayload (launch : Machine.Launcher) (client : String) (spec : PayloadSpec) :
    Except Fault Unit :=
  match launch (invocation client (Engine.applyArguments spec)) with
  | .error _ => .error (notStarted client)
  | .ok c => if c.status.isSuccess then .ok () else .error (refused client c)

/-- Follows the engine until the client ends, and gives its reports. -/
def follow (launch : Machine.Launcher) (client : String) : Except Fault (List Engine.Event) :=
  match launch (invocation client Engine.followArguments) with
  | .error _ => .error (notStarted client)
  | .ok c => .ok (Engine.Event.ofStream (c.stream .out) ++ Engine.Event.ofStream (c.stream .err))

/-- Runs the command that restarts the device. -/
def reboot (launch : Machine.Launcher) (command : List String) : Except Fault Unit :=
  match command with
  | [] => .error (.engine "reboot command is empty")
  | program :: args =>
    match launch (invocation program args) with
    | .error f => .error (.io f)
    | .ok c =>
      if c.status.isSuccess then .ok ()
      else .error (.engine ("reboot command exited with " ++ c.status.text))

end FleetAgent.Update
