/-
# The server's address

The configured address of the server is a host, optionally with a scheme and a path.  Two
base addresses are derived from it: one for requests (`httpBase`) and one for web sockets
(`socketBase`).  A plain scheme gives plain transport for both, `https` and a missing scheme
give secure transport for both, and any other scheme is refused by both.
-/
import FleetAgent.Text.Blank
import FleetAgent.Text.Pieces

namespace FleetAgent.Server

/-- An address whose scheme is not one of the two that the server speaks. -/
inductive AddressError where
  | invalidScheme (scheme : String)
deriving DecidableEq, Repr

/-- The text of an address error. -/
def AddressError.message : AddressError → String
  | .invalidScheme scheme => "server URL has invalid scheme: " ++ scheme

/-- A text without the slashes at its end. -/
def withoutSlashes (s : String) : String :=
  String.ofList (Text.dropWhileEnd (· == '/') s.toList)

/-- An address taken apart: the scheme in front of the first `://`, and the rest. -/
structure Address where
  scheme : Option String
  rest : String
deriving DecidableEq, Repr

/-- The parts of a configured address, without blanks around it and slashes at its end. -/
def Address.ofString (server : String) : Address :=
  let s := withoutSlashes (Text.trim server)
  match Text.cut? [':', '/', '/'] s.toList with
  | some (scheme, rest) => ⟨some (String.ofList scheme), String.ofList rest⟩
  | none => ⟨none, s⟩

/-- The base address of requests. -/
def httpBase (server : String) : Except AddressError String :=
  let a := Address.ofString server
  match a.scheme with
  | none => .ok ("https://" ++ a.rest)
  | some "http" => .ok ("http://" ++ a.rest)
  | some "https" => .ok ("https://" ++ a.rest)
  | some scheme => .error (.invalidScheme scheme)

/-- The base address of web sockets. -/
def socketBase (server : String) : Except AddressError String :=
  let a := Address.ofString server
  match a.scheme with
  | none => .ok ("wss://" ++ a.rest)
  | some "http" => .ok ("ws://" ++ a.rest)
  | some "https" => .ok ("wss://" ++ a.rest)
  | some scheme => .error (.invalidScheme scheme)

end FleetAgent.Server
