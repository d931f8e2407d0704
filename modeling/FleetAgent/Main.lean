/-
# The program

The program gathers what a run needs, follows `Agent.start`, and shows how the run ends.  No
transport is linked into it, so every request ends as if nobody were there; an agent that
runs goes on trying to connect.
-/
import FleetAgent.Agent.Run
import FleetAgent.Channel.Reconnect
import Std.Time.DateTime

namespace FleetAgent.Program

/-- The content of a file, if it can be read. -/
def contentOf? (path : String) : IO (Option (List UInt8)) := do
  try
    let content ← IO.FS.readBinFile path
    return some content.toList
  catch _ => return none

/-- A folder with the content of a file on this machine, where there is one. -/
def withFile (folder : Storage.Folder) (path : String) : IO Storage.Folder := do
  match ← contentOf? path with
  | some content =>
    let names := (Storage.Folder.components path).filter fun n => n != "" && n != "."
    return folder.put names (.file content)
  | none => return folder

/-- The network interfaces of this machine. -/
def interfaces : IO (List Device.Interface) := do
  try
    let folder ← IO.FS.realPath "/sys/class/net"
    let entries ← folder.readDir
    entries.toList.mapM fun e => do
      let place := "/sys/class/net/" ++ e.fileName
      return .ofDirectory ⟨Text.Utf8.encode e.fileName, ← contentOf? (place ++ "/address"),
        ← contentOf? (place ++ "/operstate")⟩
  catch _ => return []

/-- The variables that the settings may come from. -/
def environment : IO Settings.Environment := do
  let names := ["FLEETD_SERVER_URL", "FLEETD_MAC_ADDRESS", "FLEETD_KEY_PATH",
    "FLEETD_MAX_SHELLS"]
  let found ← names.mapM fun name => do
    return (← IO.getEnv name).map fun value => (name, Text.Utf8.encode value)
  return found.filterMap id

/-- A row of random numbers of 2048 bits. -/
def randomNumbers (count : Nat) : IO (List Nat) := do
  (List.replicate count ()).mapM fun _ => do
    return Crypto.Der.natOfBytes (← IO.getRandomBytes 256).toList

/-- The files that a run with a command line may read: its settings and the key. -/
def surroundings (words : List String) : IO Agent.Surroundings := do
  let env ← environment
  let settingsPath := match Agent.Reading.ofWords words with
    | .command c => c.settingsPath.getD Settings.defaultPath
    | _ => Settings.defaultPath
  let folder ← withFile (.empty "") settingsPath
  let keyPath := match Settings.load folder env (some settingsPath) with
    | .ok s => s.device.keyPath
    | .error _ => (Settings.override env {}).device.keyPath
  return ⟨← withFile folder keyPath, env, ← interfaces, ← randomNumbers 6000⟩

/-- Writes a new key that only its owner may read, and the folders on the way to it. -/
def writeKey (path : String) (content : List UInt8) : IO Unit := do
  let place := (path.toList.reverse.dropWhile (· != '/')).reverse
  unless place.isEmpty do IO.FS.createDirAll (String.ofList place)
  IO.FS.writeBinFile path ⟨content.toArray⟩
  IO.setAccessRights path ⟨⟨true, true, false⟩, ⟨false, false, false⟩, ⟨false, false, false⟩⟩

/-- Shows how a run ends. -/
def present (r : Agent.Report) : IO UInt32 := do
  r.output.forM fun line => IO.println line
  r.complaint.forM fun line => IO.eprintln line
  r.errors.forM fun line => IO.eprintln ("ERROR " ++ Agent.programName ++ ": " ++ line)
  return r.exitCode.toUInt32

/-- Goes on trying to connect. -/
partial def keepConnecting (k : Channel.Keeper) : IO UInt32 := do
  let begun := k.step false .woke
  IO.sleep (begun.now - k.now).toUInt32
  keepConnecting (begun.step false (.ended (.error (.connection .transport))))

/-- A run of the program. -/
def run (words : List String) : IO UInt32 := do
  let s ← surroundings words
  match Agent.start s words with
  | (.ended r, _) => present r
  | (.ready name settings p, folder) =>
    let path := settings.device.keyPath
    if (s.folder.resolve path).toOption.isNone then
      writeKey path ((folder.read path).toOption.getD [])
    match name with
    | .register =>
      let now := (← Std.Time.Timestamp.now).toMillisecondsSinceUnixEpoch.val.toNat
      present (Agent.registrationReport p now now .unreachable)
    | .run =>
      let m := settings.management
      keepConnecting (.initial m.backoffMinMs m.backoffMaxMs)

end FleetAgent.Program

/-- The program: its words are those of the command line. -/
def main (words : List String) : IO UInt32 :=
  FleetAgent.Program.run words
