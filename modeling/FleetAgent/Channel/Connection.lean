/-
# A connection of the management channel

An attempt to connect needs a token, an address and a peer that accepts.  On a connection the
device reports its capabilities and then hands the alerts and shell requests that arrive to
their handler, in order, until a frame ends the connection.  A frame that breaks the protocol
is answered by a close frame, after which everything is ignored until the peer closes too.
From the report to the end of the connection, the device also sends a ping at regular times.
-/
import FleetAgent.Auth.Token
import FleetAgent.Channel.Address
import FleetAgent.Channel.Frame
import FleetAgent.Channel.Message

namespace FleetAgent.Channel

/-- The state of the channel. -/
inductive Status where
  | disconnected
  | connecting
  | connected
deriving DecidableEq, Repr, Inhabited

/-- The name of a state. -/
def Status.name : Status → String
  | disconnected => "Disconnected"
  | connecting => "Connecting"
  | connected => "Connected"

/-- How an established connection ends. -/
inductive Disconnect where
  | closed
  | violation (text : String)
  /-- No frame has come for some seconds. -/
  | silent (seconds : Nat)
  | failed
deriving DecidableEq, Repr, Inhabited

/-- What the handler is called with. -/
inductive Call where
  | alert (text : String)
  | shellAttach (request : Shell.Request)
deriving DecidableEq, Repr, Inhabited

/-- The call that a message leads to, if any. -/
def Message.call? : Message → Option Call
  | .alert text => some (.alert text)
  | .shellAttach request => some (.shellAttach request)
  | .capabilityReport _ => none

/-- What happens on an established connection. -/
inductive Happening where
  /-- The reader meets something. -/
  | met (i : Inbound)
  /-- It is time for a ping. -/
  | tick
deriving DecidableEq, Repr, Inhabited

/-- What an established connection has done. -/
structure Session where
  outcome : Disconnect
  calls : List Call
  sent : List Frame
  /-- How long it has waited at its end for something to arrive, in milliseconds. -/
  elapsedMs : Nat
deriving DecidableEq, Repr, Inhabited

/-- How long the device waits for the peer to close, in milliseconds. -/
def drainMs : Nat := 5000

/-- The time until the peer closes or goes away, in milliseconds. -/
def drainTime : List Happening → Nat
  | [] | .met .silence :: _ => drainMs
  | .met (.frame (.close _)) :: _ | .met .failed :: _ | .met .ended :: _ => 0
  | _ :: rest => drainTime rest

/-- The text of a violation of the protocol. -/
def violationText (e : MessageError) : String :=
  "protocol violation: " ++ e.message

/-- Reads what arrives, and pings; silence is the end of every row.  `pingSecs` is the ping
interval. -/
def receive (pingSecs : Nat) : List Happening → Session
  | [] | .met .silence :: _ =>
    let limit := missedPings * pingSecs
    ⟨.silent limit, [], [], 1000 * limit⟩
  | .met .ended :: _ => ⟨.closed, [], [], 0⟩
  | .met .failed :: _ => ⟨.failed, [], [], 0⟩
  | .met (.frame (.close _)) :: _ => ⟨.closed, [], [], 0⟩
  -- after a close frame nothing can be sent, so there are no more pings
  | .met (.frame (.binary _)) :: rest =>
    ⟨.violation "binary frame received", [], [.close (some .notText)], drainTime rest⟩
  | .met (.frame (.text s)) :: rest =>
    match Message.decode s with
    | .error e => ⟨.violation (violationText e), [], [.close (some .malformed)], drainTime rest⟩
    | .ok m =>
      let after := receive pingSecs rest
      { after with calls := (m.bind Message.call?).toList ++ after.calls }
  -- pings and pongs only show that the peer is there
  | .met (.frame .ping) :: rest | .met (.frame .pong) :: rest => receive pingSecs rest
  | .tick :: rest =>
    let after := receive pingSecs rest
    { after with sent := .ping :: after.sent }

/-- An established connection: the capability report comes first. -/
def Session.run (pingSecs : Nat) (traffic : List Happening) : Session :=
  let s := receive (max pingSecs 1) traffic
  { s with sent := .text (Message.shellCapability true).encode :: s.sent }

/-! ## Connecting -/

/-- Why no connection came about. -/
inductive ConnectError where
  | token (e : Auth.TokenError)
  | connection (f : Http.Fault)
deriving DecidableEq, Repr, Inhabited

/-- How an attempt to connect is met. -/
inductive Peer where
  /-- Nobody is there. -/
  | unreachable
  /-- The upgrade is answered by a status. -/
  | refused (status : Nat)
  /-- The peer hangs up without an answer. -/
  | hangUp
  /-- The peer accepts, and is gone before anything can be sent to it. -/
  | vanished
  | accepted (traffic : List Happening)
deriving DecidableEq, Repr, Inhabited

/-- A request for a web socket: its address and the text of the authorization header. -/
structure Upgrade where
  url : String
  authorization : String
deriving DecidableEq, Repr, Inhabited

/-- What an attempt to connect has come to, with the state of the channel after it and the
request that has been sent, if any. -/
structure Dial where
  result : Except ConnectError Session
  status : Status
  upgrade : Option Upgrade
deriving Repr

/-- The text of the authorization header of a connection. -/
def authorization (url token : String) : Except Http.Fault String :=
  if !isAddress url then .error .transport
  else if !Http.isHeaderValue (Auth.bearer token) then .error .invalidTokenHeader
  else .ok (Auth.bearer token)

/-- The address of the management channel below a base address. -/
def channelUrl (socketBase : String) : String :=
  Server.withoutSlashes socketBase ++ "/api/v1/devices/ws"

/-- An attempt to connect. -/
def connect (url : String) (pingSecs : Nat) (token : Except Auth.TokenError String)
    (peer : Peer) : Dial :=
  match token with
  | .error e => ⟨.error (.token e), .connecting, none⟩
  | .ok token =>
    match authorization url token with
    | .error f => ⟨.error (.connection f), .connecting, none⟩
    | .ok header =>
      if !isSocketAddress url then ⟨.error (.connection .transport), .connecting, none⟩
      else match peer with
        | .unreachable => ⟨.error (.connection .transport), .connecting, none⟩
        | .refused _ | .hangUp =>
          ⟨.error (.connection .transport), .connecting, some ⟨url, header⟩⟩
        | .vanished => ⟨.ok ⟨.failed, [], [], 0⟩, .connected, some ⟨url, header⟩⟩
        | .accepted traffic =>
          ⟨.ok (Session.run pingSecs traffic), .connected, some ⟨url, header⟩⟩

end FleetAgent.Channel
