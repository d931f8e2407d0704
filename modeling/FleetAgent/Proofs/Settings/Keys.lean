/-
# The settings one by one

Every setting has a place in documents, a type and a value that it has where nothing sets it, and
some have a variable of the environment (`Key.entry`).  Its value is written as a value of a
document (`value?`); settings that agree on all values are the same (`eq_of_value?`).

Any values of the right types are those of some settings (`exists_value?_eq`).
-/
import FleetAgent.Proofs.Numeral.Integer
import FleetAgent.Proofs.Toml.Values
import FleetAgent.Settings.Load

namespace FleetAgent.Settings

open Toml (Value HasDistinctKeys)

/-! ## Types -/

/-- The types of settings. -/
inductive Kind where
  | text
  | number
  | flag
  | texts
deriving DecidableEq, Repr

namespace Kind

/-- The values of a type; a number has 64 bits and no sign. -/
def Admits : Kind → Value → Prop
  | text, v => ∃ s, v = .text s
  | number, v => ∃ n : Nat, v = .integer n ∧ n < Numeral.unsigned64End
  | flag, v => ∃ b, v = .boolean b
  | texts, v => ∃ items : List String, v = .array (items.map .text)

/-- A text of the environment stands for a value of a type: a text for itself, and a numeral for a
number. -/
inductive Reads : Kind → String → Value → Prop where
  | text (s : String) : Reads text s (.text s)
  | number (s : String) (n : Nat) (h : Numeral.IsUnsigned64 s.toList n) :
      Reads number s (.integer n)

end Kind

/-! ## Keys -/

/-- What there is to know of a setting. -/
structure Entry where
  /-- The section in documents. -/
  place : String
  /-- The name in its section. -/
  name : String
  kind : Kind
  /-- The value where nothing sets it; the hardware address has none. -/
  initial : Option Value
  /-- The variable of the environment that sets it. -/
  source : Option String := none

/-- The settings. -/
inductive Key where
  | serverUrl
  | macAddress
  | deviceType
  | softwareVersion
  | keyPath
  | keyBits
  | tokenGraceMs
  | requestTimeoutMs
  | backoffMinMs
  | backoffMaxMs
  | pingIntervalSecs
  | resetBackoffOnConnect
  | shellProgram
  | shellArgs
  | workingDir
  | maxSessions
  | updateEnabled
  | packageDir
  | checkIntervalSecs
  | engineClient
  | rebootCommand
  | logLevel
deriving DecidableEq, Repr

/-- The table of the settings. -/
def Key.entry : Key → Entry
  | serverUrl =>
    ⟨"server", "url", .text, some (.text "http://127.0.0.1:5000"), some "FLEETD_SERVER_URL"⟩
  | macAddress => ⟨"device", "mac_address", .text, none, some "FLEETD_MAC_ADDRESS"⟩
  | deviceType => ⟨"device", "device_type", .text, some (.text "x86_64"), none⟩
  | softwareVersion => ⟨"device", "software_version", .text, some (.text "unknown"), none⟩
  | keyPath =>
    ⟨"device", "key_path", .text, some (.text "/var/lib/fleetd/device_key.pem"),
      some "FLEETD_KEY_PATH"⟩
  | keyBits => ⟨"device", "key_bits", .number, some (.integer 4096), none⟩
  | tokenGraceMs => ⟨"auth", "token_grace_ms", .number, some (.integer 5000), none⟩
  | requestTimeoutMs => ⟨"auth", "request_timeout_ms", .number, some (.integer 30000), none⟩
  | backoffMinMs => ⟨"management", "backoff_min_ms", .number, some (.integer 1000), none⟩
  | backoffMaxMs => ⟨"management", "backoff_max_ms", .number, some (.integer 120000), none⟩
  | pingIntervalSecs => ⟨"management", "ping_interval_secs", .number, some (.integer 2), none⟩
  | resetBackoffOnConnect =>
    ⟨"management", "reset_backoff_on_connect", .flag, some (.boolean false), none⟩
  | shellProgram => ⟨"shell", "program", .text, some (.text "/bin/sh"), none⟩
  | shellArgs => ⟨"shell", "args", .texts, some (.array [.text "-i"]), none⟩
  | workingDir => ⟨"shell", "working_dir", .text, some (.text "/"), none⟩
  | maxSessions =>
    ⟨"shell", "max_sessions", .number, some (.integer 1), some "FLEETD_MAX_SHELLS"⟩
  | updateEnabled => ⟨"update", "enabled", .flag, some (.boolean true), none⟩
  | packageDir => ⟨"update", "package_dir", .text, some (.text "/data/ota_package"), none⟩
  | checkIntervalSecs => ⟨"update", "check_interval_secs", .number, some (.integer 3600), none⟩
  | engineClient => ⟨"update", "engine_client", .text, some (.text "update_engine_client"), none⟩
  | rebootCommand =>
    ⟨"update", "reboot_command", .texts, some (.array [.text "/sbin/reboot"]), none⟩
  | logLevel => ⟨"logging", "level", .text, some (.text "info"), none⟩

/-- The value of a setting. -/
def value? (s : Settings) : Key → Option Value
  | .serverUrl => some (.text s.server.url)
  | .macAddress => s.device.macAddress.map .text
  | .deviceType => some (.text s.device.deviceType)
  | .softwareVersion => some (.text s.device.softwareVersion)
  | .keyPath => some (.text s.device.keyPath)
  | .keyBits => some (.integer s.device.keyBits)
  | .tokenGraceMs => some (.integer s.auth.tokenGraceMs)
  | .requestTimeoutMs => some (.integer s.auth.requestTimeoutMs)
  | .backoffMinMs => some (.integer s.management.backoffMinMs)
  | .backoffMaxMs => some (.integer s.management.backoffMaxMs)
  | .pingIntervalSecs => some (.integer s.management.pingIntervalSecs)
  | .resetBackoffOnConnect => some (.boolean s.management.resetBackoffOnConnect)
  | .shellProgram => some (.text s.shell.program)
  | .shellArgs => some (.array (s.shell.args.map .text))
  | .workingDir => some (.text s.shell.workingDir)
  | .maxSessions => some (.integer s.shell.maxSessions)
  | .updateEnabled => some (.boolean s.update.enabled)
  | .packageDir => some (.text s.update.packageDir)
  | .checkIntervalSecs => some (.integer s.update.checkIntervalSecs)
  | .engineClient => some (.text s.update.engineClient)
  | .rebootCommand => some (.array (s.update.rebootCommand.map .text))
  | .logLevel => some (.text s.logging.level)

/-! ## Values of settings -/

variable {s t : Settings} {key : Key} {v : Value}

lemma map_text_injective : Function.Injective (List.map Value.text) :=
  List.map_injective_iff.mpr fun _ _ h => Value.text.inj h

/-- **All settings.**  Settings with the same values are the same. -/
theorem eq_of_value? (h : ∀ key, s.value? key = t.value? key) : s = t := by
  obtain ⟨⟨_⟩, ⟨_, _, _, _, _⟩, ⟨_, _⟩, ⟨_, _, _, _⟩, ⟨_, _, _, _⟩, ⟨_, _, _, _, _⟩, ⟨_⟩⟩ := s
  obtain ⟨⟨_⟩, ⟨_, _, _, _, _⟩, ⟨_, _⟩, ⟨_, _, _, _⟩, ⟨_, _, _, _⟩, ⟨_, _, _, _, _⟩, ⟨_⟩⟩ := t
  have hmac {a b : Option String} (h : a.map Value.text = b.map Value.text) : a = b :=
    Option.map_injective (fun _ _ h => Value.text.inj h) h
  have hserver := h .serverUrl
  have haddress := hmac (h .macAddress)
  have htype := h .deviceType
  have hversion := h .softwareVersion
  have hpath := h .keyPath
  have hbits := h .keyBits
  have hgrace := h .tokenGraceMs
  have htimeout := h .requestTimeoutMs
  have hmin := h .backoffMinMs
  have hmax := h .backoffMaxMs
  have hping := h .pingIntervalSecs
  have hreset := h .resetBackoffOnConnect
  have hprogram := h .shellProgram
  have hargs := h .shellArgs
  have hdir := h .workingDir
  have hsessions := h .maxSessions
  have henabled := h .updateEnabled
  have hpackages := h .packageDir
  have hinterval := h .checkIntervalSecs
  have hengine := h .engineClient
  have hreboot := h .rebootCommand
  have hlevel := h .logLevel
  simp only [value?, Option.some.injEq, Value.text.injEq, Value.integer.injEq, Value.boolean.injEq,
    Value.array.injEq, map_text_injective.eq_iff, Int.natCast_inj] at *
  simp [*]

lemma admits_integer {n : Nat} (h : (Value.integer n).WellFormed) :
    Kind.number.Admits (.integer n) := by
  refine ⟨n, rfl, ?_⟩
  cases h with
  | integer _ hsize =>
    simp only [Toml.Scan.isInt64, Bool.and_eq_true, decide_eq_true_eq, Numeral.signed64End] at hsize
    unfold Numeral.unsigned64End
    omega

/-- The values of settings have the types of the settings. -/
lemma admits_of_value? (hv : v.WellFormed) (h : s.value? key = some v) :
    key.entry.kind.Admits v := by
  cases key
  case macAddress =>
    obtain ⟨text, -, rfl⟩ := Option.map_eq_some_iff.mp h
    exact ⟨text, rfl⟩
  case keyBits | tokenGraceMs | requestTimeoutMs | backoffMinMs | backoffMaxMs
      | pingIntervalSecs | maxSessions | checkIntervalSecs =>
    obtain rfl := Option.some.inj h
    exact admits_integer hv
  all_goals
    obtain rfl := Option.some.inj h
    exact ⟨_, rfl⟩

/-- Every initial value has the type of its setting. -/
lemma admits_initial (h : key.entry.initial = some v) : key.entry.kind.Admits v := by
  cases key
  case macAddress => exact nomatch h
  case keyBits | tokenGraceMs | requestTimeoutMs | backoffMinMs | backoffMaxMs
      | pingIntervalSecs | maxSessions | checkIntervalSecs =>
    obtain rfl := Option.some.inj h
    exact ⟨_, rfl, by decide⟩
  case shellArgs =>
    obtain rfl := Option.some.inj h
    exact ⟨["-i"], rfl⟩
  case rebootCommand =>
    obtain rfl := Option.some.inj h
    exact ⟨["/sbin/reboot"], rfl⟩
  all_goals
    obtain rfl := Option.some.inj h
    exact ⟨_, rfl⟩

/-- Where every setting is given a value of its type or none, there are settings with these values
and with the initial values in the place of those that are not given. -/
theorem exists_value?_eq {w : Key → Option Value}
    (hw : ∀ key v, w key = some v → key.entry.kind.Admits v) :
    ∃ s : Settings, ∀ key, s.value? key = (w key).or key.entry.initial := by
  have hadmits (key : Key) (hinitial : key.entry.initial.isSome) :
      ∃ v, (w key).or key.entry.initial = some v ∧ key.entry.kind.Admits v := by
    cases hkey : w key with
    | none =>
      obtain ⟨v, hv⟩ := Option.isSome_iff_exists.mp hinitial
      exact ⟨v, hv, admits_initial hv⟩
    | some v => exact ⟨v, rfl, hw key v hkey⟩
  have hmac : ∃ mac : Option String, mac.map .text = (w .macAddress).or none := by
    cases hkey : w .macAddress with
    | none => exact ⟨none, rfl⟩
    | some v =>
      obtain ⟨mac, rfl⟩ := hw .macAddress v hkey
      exact ⟨some mac, rfl⟩
  obtain ⟨mac, hmac⟩ := hmac
  obtain ⟨_, hurl, url, rfl⟩ := hadmits .serverUrl rfl
  obtain ⟨_, htype, type, rfl⟩ := hadmits .deviceType rfl
  obtain ⟨_, hversion, version, rfl⟩ := hadmits .softwareVersion rfl
  obtain ⟨_, hpath, path, rfl⟩ := hadmits .keyPath rfl
  obtain ⟨_, hbits, bits, rfl, -⟩ := hadmits .keyBits rfl
  obtain ⟨_, hgrace, grace, rfl, -⟩ := hadmits .tokenGraceMs rfl
  obtain ⟨_, htimeout, timeout, rfl, -⟩ := hadmits .requestTimeoutMs rfl
  obtain ⟨_, hmin, min, rfl, -⟩ := hadmits .backoffMinMs rfl
  obtain ⟨_, hmax, max, rfl, -⟩ := hadmits .backoffMaxMs rfl
  obtain ⟨_, hping, ping, rfl, -⟩ := hadmits .pingIntervalSecs rfl
  obtain ⟨_, hreset, reset, rfl⟩ := hadmits .resetBackoffOnConnect rfl
  obtain ⟨_, hprogram, program, rfl⟩ := hadmits .shellProgram rfl
  obtain ⟨_, hargs, args, rfl⟩ := hadmits .shellArgs rfl
  obtain ⟨_, hdir, dir, rfl⟩ := hadmits .workingDir rfl
  obtain ⟨_, hsessions, sessions, rfl, -⟩ := hadmits .maxSessions rfl
  obtain ⟨_, henabled, enabled, rfl⟩ := hadmits .updateEnabled rfl
  obtain ⟨_, hpackages, packages, rfl⟩ := hadmits .packageDir rfl
  obtain ⟨_, hinterval, interval, rfl, -⟩ := hadmits .checkIntervalSecs rfl
  obtain ⟨_, hengine, engine, rfl⟩ := hadmits .engineClient rfl
  obtain ⟨_, hreboot, reboot, rfl⟩ := hadmits .rebootCommand rfl
  obtain ⟨_, hlevel, level, rfl⟩ := hadmits .logLevel rfl
  refine ⟨⟨⟨url⟩, ⟨mac, type, version, path, bits⟩, ⟨grace, timeout⟩, ⟨min, max, ping, reset⟩,
    ⟨program, args, dir, sessions⟩, ⟨enabled, packages, interval, engine, reboot⟩, ⟨level⟩⟩, ?_⟩
  intro key
  cases key
  case macAddress => exact hmac
  all_goals
    symm
    assumption

end FleetAgent.Settings
