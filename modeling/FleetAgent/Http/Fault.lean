/-
# Failed connections

The ways in which talking to the server fails.  Those of the transport below have no text of
their own.
-/
import FleetAgent.Http.Message

namespace FleetAgent.Http

/-- Why talking to the server failed. -/
inductive Fault where
  /-- The transport failed: no connection, no answer, or no valid address or header. -/
  | transport
  | registrationStatus (status : Nat)
  | invalidRegistration
  | checkStatus (status : Nat)
  | invalidOffer
  | downloadStatus (status : Nat)
  | noPackageName (uri : String)
  | invalidTokenHeader
  /-- A failure that another part reports in its own words. -/
  | reported (text : String)
deriving DecidableEq, Repr, Inhabited

/-- The text of a fault, if it has one. -/
def Fault.detail? : Fault → Option String
  | transport => none
  | registrationStatus status => some ("registration returned HTTP " ++ toString status)
  | invalidRegistration => some "invalid registration response"
  | checkStatus status => some ("update check returned HTTP " ++ toString status)
  | invalidOffer => some "invalid update check response"
  | downloadStatus status => some ("package download returned HTTP " ++ statusText status)
  | noPackageName uri => some ("cannot derive package name from " ++ uri)
  | invalidTokenHeader => some "invalid token header"
  | reported text => some text

/-- The text of a fault with the words that all of them begin with. -/
def Fault.message? (f : Fault) : Option String :=
  f.detail?.map ("connection failed: " ++ ·)

end FleetAgent.Http
