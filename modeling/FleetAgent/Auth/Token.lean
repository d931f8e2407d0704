/-
# Tokens and registration

The device obtains a token by a registration: a signed request that tells who it is, with
its public key and the time.  The token is used until its lifetime is over, less a period of
grace if that leaves anything.
-/
import FleetAgent.Device.Identity
import FleetAgent.Device.Key
import FleetAgent.Http.Fault
import FleetAgent.Json.Printer
import FleetAgent.Json.Record
import FleetAgent.Server.Address
import FleetAgent.Text.Base64

namespace FleetAgent.Auth

/-- Why there is no token. -/
inductive TokenError where
  | unauthorized
  | connection (f : Http.Fault)
  | key (e : Device.KeyError)
deriving DecidableEq, Repr, Inhabited

/-- The text of a token error, if it has one. -/
def TokenError.message? : TokenError → Option String
  | unauthorized => some "device unauthorized"
  | connection f => f.message?
  | key e => some e.message

/-- A token with the moment at which it stops being used, in milliseconds. -/
structure Token where
  value : String
  expiresAt : Nat
deriving DecidableEq, Repr, Inhabited

/-- Whether a token is used at a moment. -/
def Token.isValidAt (t : Token) (now : Nat) : Bool :=
  now < t.expiresAt

/-- The text that carries a token in a request. -/
def bearer (token : String) : String :=
  "Bearer token=" ++ token

/-! ## The request -/

/-- The header that carries the signature of a registration. -/
def signatureHeader : String := "X-RDFM-Device-Signature"

/-- The body of a registration. -/
def registrationBody (d : Device.Identity) (publicKey : String) (timestamp : Nat) :
    Json.Value :=
  .object [("metadata", d.metadataJson), ("public_key", .string publicKey),
    ("timestamp", .number (.ofNat timestamp))]

/-- The address of registrations below a base address. -/
def registrationUrl (base : String) : String :=
  Server.withoutSlashes base ++ "/api/v1/auth/device"

/-- The registration of a device at a moment, signed by its key. -/
def registration (base : String) (d : Device.Identity) (key : Device.Key) (timestamp : Nat) :
    Except Device.KeyError Http.Request := do
  let publicKey ← key.publicPem
  let body := Text.Utf8.encode (registrationBody d publicKey timestamp).render
  let signature ← key.sign body
  return ⟨.post, registrationUrl base,
    [(signatureHeader, Text.Base64.encode signature), ("Content-Type", "application/json")],
    body⟩

/-! ## The answer -/

/-- The token and the lifetime in seconds that an answer grants. -/
def granted? (r : Http.Response) : Option (String × Nat) := do
  match ← Json.fields? ["token", "expires"] (← r.body?) with
  | [token, expires] => return (← Json.text? token, ← Json.unsigned64? expires)
  | _ => none

/-- How long a token is used that is granted for some seconds, in milliseconds: less the
grace, if that leaves anything. -/
def usableLifetime (graceMs lifetime : Nat) : Nat :=
  let total := min (lifetime * 1000) (Numeral.unsigned64End - 1)
  if graceMs < total then total - graceMs else total

/-- What a registration comes to. -/
inductive Registration where
  | granted (t : Token)
  | refused (e : TokenError)
  /-- The moment at which the token would stop being used is not a number of 64 bits, and the
  registration crashes. -/
  | crashed
deriving DecidableEq, Repr, Inhabited

/-- The outcome of a registration that was made at a moment. -/
def outcome (graceMs timestamp : Nat) : Http.Reply → Registration
  | .unreachable | .hangUp => .refused (.connection .transport)
  | .response r =>
    if r.status = 200 then
      match granted? r with
      | some (token, lifetime) =>
        let expiresAt := timestamp + usableLifetime graceMs lifetime
        if expiresAt < Numeral.unsigned64End then .granted ⟨token, expiresAt⟩ else .crashed
      | none => .refused (.connection .invalidRegistration)
    else if r.status = 401 then .refused .unauthorized
    else .refused (.connection (.registrationStatus r.status))

end FleetAgent.Auth
