/-
# Settings in a document

A section of the settings is a table with the fields by name, or an array that gives the
fields in their order.  Fields that are missing have their default; names and items that are
not known are ignored; a field that is there must have its type, and a number must not be
negative.  A date in the place of a section counts as a table without known names.
-/
import FleetAgent.Settings.Basic
import FleetAgent.Toml.Document

namespace FleetAgent.Settings

open FleetAgent.Toml (Value)

/-- The fields of a section as they are given. -/
inductive Fields where
  | named (entries : List (String × Value))
  | listed (items : List Value)
deriving Repr, Inhabited

namespace Fields

/-- The fields that a value gives. -/
def ofValue? : Value → Option Fields
  | .table entries => some (.named entries)
  | .array items => some (.listed items)
  | .dateTime => some (.named [])
  | _ => none

/-- The value of a field with its place in the section and its name. -/
def get? (f : Fields) (index : Nat) (name : String) : Option Value :=
  match f with
  | named entries => Toml.lookup? name entries
  | listed items => items[index]?

/-- A field that is read by `read?` and has a default. -/
def field? {α : Type} (f : Fields) (index : Nat) (name : String) (read? : Value → Option α)
    (default : α) : Option α :=
  match f.get? index name with
  | none => some default
  | some v => read? v

end Fields

/-! ## The types of fields -/

/-- A text. -/
def text? : Value → Option String
  | .text s => some s
  | _ => none

/-- A number that is not negative. -/
def natural? : Value → Option Nat
  | .integer n => if 0 ≤ n then some n.toNat else none
  | _ => none

/-- A truth value. -/
def boolean? : Value → Option Bool
  | .boolean b => some b
  | _ => none

/-- A list of texts. -/
def texts? : Value → Option (List String)
  | .array items => items.mapM text?
  | _ => none

/-! ## The sections -/

/-- The server section. -/
def ServerSection.ofFields? (f : Fields) : Option ServerSection := do
  return ⟨← f.field? 0 "url" text? Default.serverUrl⟩

/-- The hardware address: it may be left out of a table, but not of an array. -/
def macAddress? : Fields → Option (Option String)
  | .named entries =>
    match Toml.lookup? "mac_address" entries with
    | some v => (text? v).map some
    | none => some none
  | .listed (v :: _) => (text? v).map some
  | .listed [] => none

/-- The device section. -/
def DeviceSection.ofFields? (f : Fields) : Option DeviceSection := do
  let macAddress ← macAddress? f
  let deviceType ← f.field? 1 "device_type" text? Default.deviceType
  let softwareVersion ← f.field? 2 "software_version" text? Default.softwareVersion
  let keyPath ← f.field? 3 "key_path" text? Default.keyPath
  let keyBits ← f.field? 4 "key_bits" natural? Default.keyBits
  return ⟨macAddress, deviceType, softwareVersion, keyPath, keyBits⟩

/-- The section on tokens. -/
def AuthSection.ofFields? (f : Fields) : Option AuthSection := do
  let tokenGraceMs ← f.field? 0 "token_grace_ms" natural? Default.tokenGraceMs
  let requestTimeoutMs ← f.field? 1 "request_timeout_ms" natural? Default.requestTimeoutMs
  return ⟨tokenGraceMs, requestTimeoutMs⟩

/-- The section on the management channel. -/
def ManagementSection.ofFields? (f : Fields) : Option ManagementSection := do
  let backoffMinMs ← f.field? 0 "backoff_min_ms" natural? Default.backoffMinMs
  let backoffMaxMs ← f.field? 1 "backoff_max_ms" natural? Default.backoffMaxMs
  let pingIntervalSecs ← f.field? 2 "ping_interval_secs" natural? Default.pingIntervalSecs
  let reset ← f.field? 3 "reset_backoff_on_connect" boolean? false
  return ⟨backoffMinMs, backoffMaxMs, pingIntervalSecs, reset⟩

/-- The section on shells. -/
def ShellSection.ofFields? (f : Fields) : Option ShellSection := do
  let program ← f.field? 0 "program" text? Default.shellProgram
  let args ← f.field? 1 "args" texts? Default.shellArgs
  let workingDir ← f.field? 2 "working_dir" text? Default.workingDir
  let maxSessions ← f.field? 3 "max_sessions" natural? Default.maxSessions
  return ⟨program, args, workingDir, maxSessions⟩

/-- The section on updates. -/
def UpdateSection.ofFields? (f : Fields) : Option UpdateSection := do
  let enabled ← f.field? 0 "enabled" boolean? Default.updateEnabled
  let packageDir ← f.field? 1 "package_dir" text? Default.packageDir
  let checkIntervalSecs ← f.field? 2 "check_interval_secs" natural? Default.checkIntervalSecs
  let engineClient ← f.field? 3 "engine_client" text? Default.engineClient
  let rebootCommand ← f.field? 4 "reboot_command" texts? Default.rebootCommand
  return ⟨enabled, packageDir, checkIntervalSecs, engineClient, rebootCommand⟩

/-- The section on logging. -/
def LoggingSection.ofFields? (f : Fields) : Option LoggingSection := do
  return ⟨← f.field? 0 "level" text? Default.logLevel⟩

/-! ## The document -/

/-- The section with a name, or its default if the document does not have it. -/
def section? {α : Type} (entries : List (String × Value)) (name : String)
    (ofFields? : Fields → Option α) (default : α) : Option α :=
  match Toml.lookup? name entries with
  | none => some default
  | some v => (Fields.ofValue? v).bind ofFields?

/-- The settings that the root table of a document gives. -/
def ofEntries? (entries : List (String × Value)) : Option Settings := do
  let d : Settings := {}
  let server ← section? entries "server" ServerSection.ofFields? d.server
  let device ← section? entries "device" DeviceSection.ofFields? d.device
  let auth ← section? entries "auth" AuthSection.ofFields? d.auth
  let management ← section? entries "management" ManagementSection.ofFields? d.management
  let shell ← section? entries "shell" ShellSection.ofFields? d.shell
  let update ← section? entries "update" UpdateSection.ofFields? d.update
  let logging ← section? entries "logging" LoggingSection.ofFields? d.logging
  return ⟨server, device, auth, management, shell, update, logging⟩

/-- The settings of a document. -/
def ofDocument? (document : String) : Option Settings :=
  (Toml.Document.ofString? document).bind ofEntries?

end FleetAgent.Settings
