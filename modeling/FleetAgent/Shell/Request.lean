/-
# Requests to attach a shell

The server asks for a shell by the hardware address of the device and the identifier of a
session.  Both go into the address of the tunnel as they were given, so a request is checked
before anything is done about it: the session must be a UUID and the address a hardware
address.  The session is checked first.
-/
import FleetAgent.Device.Mac
import FleetAgent.Server.Address
import FleetAgent.Uuid

namespace FleetAgent.Shell

/-- A request to attach a shell, as it was given. -/
structure Request where
  mac : String
  session : String
deriving DecidableEq, Repr, Inhabited

/-- Why a request is refused. -/
inductive RequestError where
  | notUuid (session : String)
  | invalidMac (mac : String)
deriving DecidableEq, Repr

/-- The text of a request error. -/
def RequestError.message : RequestError → String
  | .notUuid session => "invalid shell request: session id is not a UUID: " ++ session
  | .invalidMac mac => "invalid shell request: invalid MAC address: " ++ mac

/-- Checks a request. -/
def Request.validate (r : Request) : Except RequestError Unit :=
  if (Uuid.ofString? r.session).isNone then .error (.notUuid r.session)
  else if (Device.Mac.ofString? r.mac).isNone then .error (.invalidMac r.mac)
  else .ok ()

/-- The address of the tunnel for a request, below a web socket base address. -/
def Request.url (socketBase : String) (r : Request) : String :=
  Server.withoutSlashes socketBase ++ "/api/v1/devices/" ++ r.mac ++ "/shell/attach/" ++ r.session

end FleetAgent.Shell
