/-
# Starting a session

A session starts with a request that carries the token, then with its process, and last with
its web socket.  The first of these that fails is the reason why there is no session; a
process without a web socket is killed.
-/
import FleetAgent.Channel.Connection
import FleetAgent.Shell.Process

namespace FleetAgent.Shell

/-- Why a session could not be started. -/
inductive StartError where
  | connection (f : Http.Fault)
  | spawn (f : Storage.Fault)
deriving DecidableEq, Repr, Inhabited

/-- Starts a session at an address with a token, and gives what will happen on its web
socket. -/
def start (launch : Machine.Launcher) (s : Settings.ShellSection) (url token : String)
    (peer : Channel.Peer) : Except StartError (List Channel.Happening) :=
  match Channel.authorization url token with
  | .error f => .error (.connection f)
  | .ok _ =>
    match launch (sessionInvocation s []) with
    | .error f => .error (.spawn f)
    | .ok _ =>
      if !Channel.isSocketAddress url then .error (.connection .transport)
      else match peer with
        | .accepted traffic => .ok traffic
        | .vanished => .ok [.met .failed]
        | .unreachable | .refused _ | .hangUp => .error (.connection .transport)

end FleetAgent.Shell
