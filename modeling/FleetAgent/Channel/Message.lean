/-
# The messages of the management channel

Every message is a JSON object that names its method.  The device reports its capabilities;
the server sends alerts and asks for shells.  A message with an unknown method is no error,
so that servers may grow: `Message.ofJson` tells it apart from a malformed message of a known
method and from a value that has no method at all.  Members that a method does not know are
ignored.
-/
import FleetAgent.Channel.Capabilities
import FleetAgent.Json.Printer
import FleetAgent.Json.Reader
import FleetAgent.Shell.Request

namespace FleetAgent.Channel

/-- A message. -/
inductive Message where
  | capabilityReport (capabilities : Capabilities)
  | alert (text : String)
  | shellAttach (request : Shell.Request)
deriving DecidableEq, Repr

/-- The methods that are known. -/
inductive Method where
  | capabilityReport
  | alert
  | shellAttach
deriving DecidableEq, Repr

/-- The name of a method in a message. -/
def Method.name : Method → String
  | .capabilityReport => "capability_report"
  | .alert => "alert"
  | .shellAttach => "shell_attach"

/-- The method with a name. -/
def Method.ofName? (s : String) : Option Method :=
  [Method.capabilityReport, .alert, .shellAttach].find? fun m => m.name == s

/-- What makes a text no message. -/
inductive MessageError where
  | invalidJson
  | noMethod
  | malformed (method : Method)
deriving DecidableEq, Repr

/-- The text of a message error. -/
def MessageError.message : MessageError → String
  | .invalidJson => "invalid JSON"
  | .noMethod => "message has no method"
  | .malformed method => "malformed " ++ method.name

namespace Message

/-- The report that announces whether shells are available. -/
def shellCapability (available : Bool) : Message :=
  .capabilityReport (.ofList [("shell", available)])

/-! ## Writing -/

/-- The JSON object of a message, its method first. -/
def toJson : Message → Json.Value
  | .capabilityReport c =>
    .object [("method", .string Method.capabilityReport.name),
      ("capabilities", .object (c.entries.map fun e => (e.1, .bool e.2)))]
  | .alert text =>
    .object [("method", .string Method.alert.name),
      ("alert", .object [("message", .string text)])]
  | .shellAttach r =>
    .object [("method", .string Method.shellAttach.name), ("mac_addr", .string r.mac),
      ("uuid", .string r.session)]

/-- The text of a message. -/
def encode (m : Message) : String :=
  m.toJson.render

/-! ## Reading -/

/-- The entries of an object whose members are all truth values. -/
def capabilityEntries? (members : List (String × Json.Value)) : Option (List (String × Bool)) :=
  members.mapM fun m => m.2.bool?.map fun b => (m.1, b)

/-- Members without those that a later member of the same name replaces. -/
def effective (members : List (String × Json.Value)) : List (String × Json.Value) :=
  members.foldr (fun m later => if later.any (·.1 == m.1) then later else m :: later) []

/-- The text of an alert: a member `message`, or the only item of an array. -/
def alertText? : Json.Value → Option String
  | .object members => (Json.Value.lookup? "message" members).bind Json.Value.text?
  | .array [.string s] => some s
  | _ => none

/-- The message of a known method in an object. -/
def ofMembers? (method : Method) (v : Json.Value) : Option Message :=
  match method with
  | .capabilityReport => do
    let members ← (← v.field? "capabilities").members?
    let entries ← capabilityEntries? (effective members)
    pure (.capabilityReport (.ofList entries))
  | .alert => do
    let text ← alertText? (← v.field? "alert")
    pure (.alert text)
  | .shellAttach => do
    let mac ← (← v.field? "mac_addr").text?
    let session ← (← v.field? "uuid").text?
    pure (.shellAttach ⟨mac, session⟩)

/-- The message that a JSON value denotes, or nothing if its method is unknown. -/
def ofJson (v : Json.Value) : Except MessageError (Option Message) :=
  match (v.field? "method").bind Json.Value.text? with
  | none => .error .noMethod
  | some name =>
    match Method.ofName? name with
    | none => .ok none
    | some method =>
      match ofMembers? method v with
      | some m => .ok (some m)
      | none => .error (.malformed method)

/-- The message that a text denotes, or nothing if its method is unknown. -/
def decode (text : String) : Except MessageError (Option Message) :=
  match Json.Value.ofString? text with
  | none => .error .invalidJson
  | some v => ofJson v

end Message

end FleetAgent.Channel
