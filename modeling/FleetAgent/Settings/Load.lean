/-
# Loading the settings

The settings come from a file and from the environment.  The file is the one that is named
or, if none is named, `fleetd.toml` where it exists; without a file all settings have their
defaults.  Four variables of the environment override one setting each.
-/
import FleetAgent.Settings.Document
import FleetAgent.Storage.Folder
import FleetAgent.Text.Utf8

namespace FleetAgent.Settings

/-- Why settings could not be loaded. -/
inductive LoadError where
  | unreadable (path : String)
  | malformed (path : String)
deriving DecidableEq, Repr

/-- The text of a load error. -/
def LoadError.message : LoadError → String
  | .unreadable path => "failed to read config file " ++ path
  | .malformed path => "failed to parse config file " ++ path

/-- The variables of the environment, with their values as bytes. -/
abbrev Environment := List (String × List UInt8)

/-- The value of a variable; one that is not UTF-8 counts as unset. -/
def Environment.text? (env : Environment) (name : String) : Option String :=
  (List.lookup name env).bind Text.Utf8.decode?

/-- The settings in a document that has no path of its own. -/
def ofInline (document : String) : Except LoadError Settings :=
  match ofDocument? document with
  | some s => .ok s
  | none => .error (.malformed "<inline>")

/-- The settings in a file. -/
def ofFile (folder : Storage.Folder) (path : String) : Except LoadError Settings :=
  match (folder.read path).toOption.bind Text.Utf8.decode? with
  | none => .error (.unreadable path)
  | some document =>
    match ofDocument? document with
    | some s => .ok s
    | none => .error (.malformed path)

/-- The file that is read if none is named. -/
def defaultPath : String := "fleetd.toml"

/-- Settings with those that the environment sets. -/
def override (env : Environment) (s : Settings) : Settings :=
  { s with
    server := { s.server with url := (env.text? "FLEETD_SERVER_URL").getD s.server.url }
    device :=
      { s.device with
        macAddress := (env.text? "FLEETD_MAC_ADDRESS").or s.device.macAddress
        keyPath := (env.text? "FLEETD_KEY_PATH").getD s.device.keyPath }
    shell :=
      { s.shell with
        maxSessions := ((env.text? "FLEETD_MAX_SHELLS").bind fun v =>
          Numeral.unsigned64? v.toList).getD s.shell.maxSessions } }

/-- Loads the settings from a folder and an environment. -/
def load (folder : Storage.Folder) (env : Environment) (path : Option String) :
    Except LoadError Settings :=
  let found := match path with
    | some p => ofFile folder p
    | none =>
      if (folder.resolve defaultPath).isOk then ofFile folder defaultPath else .ok {}
  found.map (override env)

end FleetAgent.Settings
