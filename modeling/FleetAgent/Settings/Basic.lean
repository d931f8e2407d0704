/-
# Settings

The settings of the agent in their sections, with the values they have where nothing is
configured.  A value is needed in two places: where a whole section is missing, and where a
section lacks one setting.
-/
namespace FleetAgent

namespace Settings

/-! ## The values of settings that are not configured -/

namespace Default

def serverUrl : String := "http://127.0.0.1:5000"

def deviceType : String := "x86_64"

def softwareVersion : String := "unknown"

def keyPath : String := "/var/lib/fleetd/device_key.pem"

def keyBits : Nat := 4096

def tokenGraceMs : Nat := 5000

def requestTimeoutMs : Nat := 30000

def backoffMinMs : Nat := 1000

def backoffMaxMs : Nat := 120000

def pingIntervalSecs : Nat := 2

def shellProgram : String := "/bin/sh"

def shellArgs : List String := ["-i"]

def workingDir : String := "/"

def maxSessions : Nat := 1

def updateEnabled : Bool := true

def packageDir : String := "/data/ota_package"

def checkIntervalSecs : Nat := 3600

def engineClient : String := "update_engine_client"

def rebootCommand : List String := ["/sbin/reboot"]

def logLevel : String := "info"

end Default

/-! ## The sections -/

/-- Where the server is. -/
structure ServerSection where
  url : String := Default.serverUrl
deriving DecidableEq, Repr, Inhabited

/-- Who the device is, and where its key is kept. -/
structure DeviceSection where
  /-- The hardware address, if it is not that of a network interface. -/
  macAddress : Option String := none
  deviceType : String := Default.deviceType
  softwareVersion : String := Default.softwareVersion
  keyPath : String := Default.keyPath
  /-- The size of a new key. -/
  keyBits : Nat := Default.keyBits
deriving DecidableEq, Repr, Inhabited

/-- How tokens are obtained. -/
structure AuthSection where
  /-- How long before its end a token is no longer used. -/
  tokenGraceMs : Nat := Default.tokenGraceMs
  requestTimeoutMs : Nat := Default.requestTimeoutMs
deriving DecidableEq, Repr, Inhabited

/-- How the management channel is kept up. -/
structure ManagementSection where
  backoffMinMs : Nat := Default.backoffMinMs
  backoffMaxMs : Nat := Default.backoffMaxMs
  pingIntervalSecs : Nat := Default.pingIntervalSecs
  resetBackoffOnConnect : Bool := false
deriving DecidableEq, Repr, Inhabited

/-- What a shell session runs. -/
structure ShellSection where
  program : String := Default.shellProgram
  args : List String := Default.shellArgs
  workingDir : String := Default.workingDir
  maxSessions : Nat := Default.maxSessions
deriving DecidableEq, Repr, Inhabited

/-- How updates are found and applied. -/
structure UpdateSection where
  enabled : Bool := Default.updateEnabled
  packageDir : String := Default.packageDir
  checkIntervalSecs : Nat := Default.checkIntervalSecs
  engineClient : String := Default.engineClient
  rebootCommand : List String := Default.rebootCommand
deriving DecidableEq, Repr, Inhabited

/-- What is logged. -/
structure LoggingSection where
  level : String := Default.logLevel
deriving DecidableEq, Repr, Inhabited

end Settings

/-- All settings. -/
structure Settings where
  server : Settings.ServerSection := {}
  device : Settings.DeviceSection := {}
  auth : Settings.AuthSection := {}
  management : Settings.ManagementSection := {}
  shell : Settings.ShellSection := {}
  update : Settings.UpdateSection := {}
  logging : Settings.LoggingSection := {}
deriving DecidableEq, Repr, Inhabited

end FleetAgent
