/-
# A run of the program

A run reads its command line, loads the settings, learns who the device is and opens its
key.  A registration then asks the server for a token and tells how long it can be used; the
agent itself goes on until it is told to stop.  Whatever fails before that ends the run.
-/
import FleetAgent.Agent.Manual
import FleetAgent.Auth.Provider
import FleetAgent.Settings.Load

namespace FleetAgent.Agent

/-- What a run finds around it. -/
structure Surroundings where
  folder : Storage.Folder
  environment : Settings.Environment
  interfaces : List Device.Interface
  /-- The numbers that a new key is made from. -/
  random : List Nat

/-- Why a run ends before its work is done. -/
inductive Failure where
  | address (e : Server.AddressError)
  | identity (e : Device.IdentityError)
  | key (e : Device.KeyError)
  | token (e : Auth.TokenError)
deriving Repr

/-- The text of a failure. -/
def Failure.message : Failure → String
  | address e => e.message
  | identity e => e.message
  | key e => e.message
  | token e => e.message?.getD "connection failed"

/-- What a run has shown when it ends. -/
structure Report where
  /-- The lines of its output. -/
  output : List String
  /-- The lines of its error output. -/
  complaint : List String
  /-- The errors that it has logged. -/
  errors : List String
  exitCode : Nat
deriving DecidableEq, Repr, Inhabited

/-- The end of a run that has shown some lines and is content. -/
def Report.ofOutput (lines : List String) : Report := ⟨lines, [], [], 0⟩

/-- The end of a run by a failure. -/
def Failure.report (f : Failure) : Report := ⟨[], [], [f.message], 1⟩

/-- The end of a run by a crash. -/
def Report.ofCrash : Report := ⟨[], ["attempt to add with overflow"], [], 101⟩

/-- The end of a run by settings that cannot be loaded. -/
def loadReport (e : Settings.LoadError) : Report :=
  ⟨[], [programName ++ ": " ++ e.message], [], 1⟩

/-- The end of a run by a command line that is wrong. -/
def usageReport (e : UsageError) : Report := ⟨[], Manual.usageError e, [], 2⟩

/-! ## Preparation -/

/-- The provider of tokens for a device, with the folder after its key has been opened. -/
def provider (s : Surroundings) (settings : Settings) :
    Except Failure Auth.Provider × Storage.Folder :=
  match Server.httpBase settings.server.url with
  | .error e => (.error (.address e), s.folder)
  | .ok base =>
    match Device.Identity.resolve settings.device.macAddress settings.device.deviceType
        settings.device.softwareVersion s.interfaces with
    | .error e => (.error (.identity e), s.folder)
    | .ok device =>
      match Device.KeyStore.load s.folder settings.device.keyPath settings.device.keyBits
          s.random with
      | (.error e, folder) => (.error (.key e), folder)
      | (.ok k, folder) =>
        let grace := Time.Duration.ofMillis settings.auth.tokenGraceMs
        (.ok (.ofGrace base device (Device.Key.ofRsa k) grace), folder)

/-! ## Registration -/

/-- The line that tells how long a token can be used from a moment on. -/
def grantLine (t : Auth.Token) (now : Nat) : String :=
  "Device authorized, token usable for " ++ toString ((t.expiresAt - now) / 1000) ++ "s"

/-- The end of a registration that was sent at `sentAt` and answered at `answeredAt`. -/
def registrationReport (p : Auth.Provider) (sentAt answeredAt : Nat) (reply : Http.Reply) :
    Report :=
  match (p.register sentAt reply).1 with
  | .granted t => .ofOutput [grantLine t answeredAt]
  | .refused e => Failure.report (.token e)
  | .crashed => .ofCrash

/-! ## A whole run -/

/-- What a run comes to before it has to do with the server: its end, or a command with the
settings and the provider of tokens. -/
inductive Start where
  | ended (r : Report)
  | ready (name : CommandName) (settings : Settings) (p : Auth.Provider)

/-- The start of a command, with the folder after it. -/
def startCommand (s : Surroundings) (c : Command) : Start × Storage.Folder :=
  match Settings.load s.folder s.environment c.settingsPath with
  | .error e => (.ended (loadReport e), s.folder)
  | .ok settings =>
    match provider s settings with
    | (.error f, folder) => (.ended f.report, folder)
    | (.ok p, folder) => (.ready c.name settings p, folder)

/-- The start of a run with a command line, with the folder after it. -/
def start (s : Surroundings) (words : List String) : Start × Storage.Folder :=
  match Reading.ofWords words with
  | .wrong e => (.ended (usageReport e), s.folder)
  | .help topic => (.ended (.ofOutput (Manual.help topic)), s.folder)
  | .version => (.ended (.ofOutput [Manual.versionLine]), s.folder)
  | .command c => startCommand s c

end FleetAgent.Agent
