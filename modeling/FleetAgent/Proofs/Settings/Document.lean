/-
# Settings from documents

A document gives a setting by an entry of its name in the table of its section (`Gives`), whatever
else it holds and in whichever order.  A setting that it does not give has its initial value, no
matter whether only its entry is missing or the whole section (`ofEntries?_eq_some_iff`): an absent
section counts as one without entries (`read_section?_eq`).

There are settings for a document if every value that it gives has the type of its setting
(`exists_ofEntries?_iff`).
-/
import FleetAgent.Proofs.Settings.Keys

namespace FleetAgent.Settings

open Toml (Value HasDistinctKeys lookup?)

variable {entries es : List (String × Value)} {key : Key} {v : Value} {s : Settings}

/-! ## What documents give -/

/-- The sections of a document are tables. -/
def HasTables (entries : List (String × Value)) : Prop :=
  ∀ (key : Key) (v : Value), (key.entry.place, v) ∈ entries → ∃ es, v = .table es

/-- Whether a value is a table. -/
def isTable : Value → Bool
  | .table _ => true
  | _ => false

lemma hasTables_of_all (h : entries.all fun e => isTable e.2) : HasTables entries := by
  intro key v hmem
  have htable : isTable v = true := List.all_eq_true.mp h _ hmem
  cases v with
  | table es => exact ⟨es, rfl⟩
  | _ => cases htable

/-- A document gives a setting a value. -/
def Gives (entries : List (String × Value)) (key : Key) (v : Value) : Prop :=
  ∃ es, (key.entry.place, Value.table es) ∈ entries ∧ (key.entry.name, v) ∈ es

/-- Every value that a document gives a setting has the type of the setting. -/
def IsTyped (entries : List (String × Value)) : Prop :=
  ∀ key v, Gives entries key v → key.entry.kind.Admits v

/-- The entries of a section. -/
def sectionEntries (entries : List (String × Value)) (place : String) : List (String × Value) :=
  match lookup? place entries with
  | some (.table es) => es
  | _ => []

/-- The value that a document gives a setting. -/
def given? (entries : List (String × Value)) (key : Key) : Option Value :=
  lookup? key.entry.name (sectionEntries entries key.entry.place)

lemma given?_eq_some_iff (h : (Value.table entries).WellFormed) :
    given? entries key = some v ↔ Gives entries key v := by
  obtain ⟨hkeys, heach⟩ := Value.wellFormed_table_iff.mp h
  constructor
  · intro hgiven
    rw [given?, sectionEntries] at hgiven
    split at hgiven
    · next es hes =>
      rw [Toml.lookup?_eq_some_iff hkeys] at hes
      obtain ⟨hdistinct, -⟩ := Value.wellFormed_table_iff.mp (heach _ hes)
      exact ⟨es, hes, (Toml.lookup?_eq_some_iff hdistinct).mp hgiven⟩
    · exact nomatch hgiven
  · rintro ⟨es, hes, hv⟩
    obtain ⟨hdistinct, -⟩ := Value.wellFormed_table_iff.mp (heach _ hes)
    rw [given?, sectionEntries, (Toml.lookup?_eq_some_iff hkeys).mpr hes]
    exact (Toml.lookup?_eq_some_iff hdistinct).mpr hv

lemma Gives.wellFormed (h : (Value.table entries).WellFormed) (hgives : Gives entries key v) :
    v.WellFormed := by
  obtain ⟨es, hes, hv⟩ := hgives
  obtain ⟨-, heach⟩ := Value.wellFormed_table_iff.mp h
  obtain ⟨-, hvalues⟩ := Value.wellFormed_table_iff.mp (heach _ hes)
  exact hvalues _ hv

/-! ## Reading fields -/

lemma text?_eq_some_iff {a : String} : text? v = some a ↔ v = .text a := by
  cases v <;> simp [text?]

lemma natural?_eq_some_iff {n : Nat} : natural? v = some n ↔ v = .integer n := by
  cases v with
  | integer m =>
    rw [natural?, Value.integer.injEq]
    split_ifs with hm
    · rw [Option.some.injEq]
      omega
    · simp only [false_iff]
      omega
  | _ => simp [natural?]

lemma boolean?_eq_some_iff {b : Bool} : boolean? v = some b ↔ v = .boolean b := by
  cases v <;> simp [boolean?]

lemma mapM_text?_eq_some_iff {items : List Value} {texts : List String} :
    items.mapM text? = some texts ↔ items = texts.map .text := by
  induction items generalizing texts with
  | nil => simp [eq_comm]
  | cons item items ih =>
    simp only [List.mapM_cons, Option.bind_eq_bind, Option.bind_eq_some_iff, ih,
      text?_eq_some_iff]
    constructor
    · rintro ⟨text, rfl, texts, rfl, heq⟩
      obtain rfl := Option.some.inj heq
      rfl
    · intro h
      obtain ⟨text, texts, rfl, rfl, rfl⟩ := List.map_eq_cons_iff.mp h.symm
      exact ⟨text, rfl, texts, rfl, rfl⟩

lemma texts?_eq_some_iff {texts : List String} :
    texts? v = some texts ↔ v = .array (texts.map .text) := by
  cases v <;> simp [texts?, mapM_text?_eq_some_iff]

/-- A field of a table has the value that stands under its name, and else its default. -/
lemma field?_eq_some_iff {α : Type} {read? : Value → Option α} {write : α → Value}
    (hread : ∀ v a, read? v = some a ↔ v = write a) {index : Nat} {name : String} {d a : α} :
    (Fields.named es).field? index name read? d = some a ↔
      some (write a) = (lookup? name es).or (some (write d)) := by
  rw [Fields.field?, Fields.get?]
  cases lookup? name es with
  | none =>
    rw [Option.none_or, Option.some.injEq, Option.some.injEq]
    constructor
    · rintro rfl
      rfl
    · intro h
      have hd : read? (write a) = some d := (hread _ _).mpr h
      rw [(hread _ a).mpr rfl] at hd
      exact (Option.some.inj hd).symm
  | some v =>
    rw [Option.some_or, Option.some.injEq, eq_comm (a := write a)]
    exact hread v a

section

variable (index : Nat) (name : String)

lemma textField?_eq_some_iff (d : String) {a : String} :
    (Fields.named es).field? index name text? d = some a ↔
      some (.text a) = (lookup? name es).or (some (.text d)) :=
  field?_eq_some_iff fun _ _ => text?_eq_some_iff

lemma naturalField?_eq_some_iff (d : Nat) {n : Nat} :
    (Fields.named es).field? index name natural? d = some n ↔
      some (.integer n) = (lookup? name es).or (some (.integer d)) :=
  field?_eq_some_iff fun _ _ => natural?_eq_some_iff

lemma booleanField?_eq_some_iff (d : Bool) {b : Bool} :
    (Fields.named es).field? index name boolean? d = some b ↔
      some (.boolean b) = (lookup? name es).or (some (.boolean d)) :=
  field?_eq_some_iff fun _ _ => boolean?_eq_some_iff

lemma textsField?_eq_some_iff (d : List String) {texts : List String} :
    (Fields.named es).field? index name texts? d = some texts ↔
      some (.array (texts.map .text)) = (lookup? name es).or (some (.array (d.map .text))) :=
  field?_eq_some_iff fun _ _ => texts?_eq_some_iff

end

lemma macAddress?_eq_some_iff {mac : Option String} :
    macAddress? (.named es) = some mac ↔
      mac.map .text = (lookup? "mac_address" es).or none := by
  rw [macAddress?, Option.or_none]
  cases lookup? "mac_address" es with
  | none => cases mac <;> simp
  | some v =>
    cases mac with
    | none => simp
    | some a =>
      rw [Option.map_some, Option.some.injEq, eq_comm (a := Value.text a), ← text?_eq_some_iff]
      simp

/-! ## Reading sections -/

/-- An absent section counts as one without entries. -/
lemma read_section?_eq {α : Type} {place : String} {ofFields? : Fields → Option α} {d : α}
    (htable : ∀ v, (place, v) ∈ entries → ∃ es, v = .table es)
    (hdefault : ofFields? (.named []) = some d) : section? entries place ofFields? d =
      ofFields? (.named (sectionEntries entries place)) := by
  rw [section?, sectionEntries]
  cases hlookup : lookup? place entries with
  | none => exact hdefault.symm
  | some v =>
    obtain ⟨es, rfl⟩ := htable v (Toml.mem_of_lookup? hlookup)
    rfl

/-- A setting has the value of its entry among those of its section, and else its initial value. -/
def Follows (s : Settings) (es : List (String × Value)) (key : Key) : Prop :=
  s.value? key = (lookup? key.entry.name es).or key.entry.initial

lemma ServerSection.ofFields?_eq_some_iff :
    ofFields? (.named es) = some s.server ↔ s.Follows es .serverUrl := by
  refine Iff.trans ?_ (textField?_eq_some_iff 0 "url" Default.serverUrl)
  cases s.server
  simp [ofFields?, Option.bind_eq_some_iff]

lemma DeviceSection.ofFields?_eq_some_iff :
    ofFields? (.named es) = some s.device ↔
      s.Follows es .macAddress ∧ s.Follows es .deviceType ∧ s.Follows es .softwareVersion ∧
        s.Follows es .keyPath ∧ s.Follows es .keyBits := by
  refine Iff.trans ?_ <|
    and_congr macAddress?_eq_some_iff <|
    and_congr (textField?_eq_some_iff 1 "device_type" Default.deviceType) <|
    and_congr (textField?_eq_some_iff 2 "software_version" Default.softwareVersion) <|
    and_congr (textField?_eq_some_iff 3 "key_path" Default.keyPath)
      (naturalField?_eq_some_iff 4 "key_bits" Default.keyBits)
  cases s.device
  simp [ofFields?, Option.bind_eq_some_iff]

lemma AuthSection.ofFields?_eq_some_iff :
    ofFields? (.named es) = some s.auth ↔
      s.Follows es .tokenGraceMs ∧ s.Follows es .requestTimeoutMs := by
  refine Iff.trans ?_ <|
    and_congr (naturalField?_eq_some_iff 0 "token_grace_ms" Default.tokenGraceMs)
      (naturalField?_eq_some_iff 1 "request_timeout_ms" Default.requestTimeoutMs)
  cases s.auth
  simp [ofFields?, Option.bind_eq_some_iff]

lemma ManagementSection.ofFields?_eq_some_iff :
    ofFields? (.named es) = some s.management ↔
      s.Follows es .backoffMinMs ∧ s.Follows es .backoffMaxMs ∧ s.Follows es .pingIntervalSecs ∧
        s.Follows es .resetBackoffOnConnect := by
  refine Iff.trans ?_ <|
    and_congr (naturalField?_eq_some_iff 0 "backoff_min_ms" Default.backoffMinMs) <|
    and_congr (naturalField?_eq_some_iff 1 "backoff_max_ms" Default.backoffMaxMs) <|
    and_congr (naturalField?_eq_some_iff 2 "ping_interval_secs" Default.pingIntervalSecs)
      (booleanField?_eq_some_iff 3 "reset_backoff_on_connect" false)
  cases s.management
  simp [ofFields?, Option.bind_eq_some_iff, -Bool.exists_bool]

lemma ShellSection.ofFields?_eq_some_iff :
    ofFields? (.named es) = some s.shell ↔
      s.Follows es .shellProgram ∧ s.Follows es .shellArgs ∧ s.Follows es .workingDir ∧
        s.Follows es .maxSessions := by
  refine Iff.trans ?_ <|
    and_congr (textField?_eq_some_iff 0 "program" Default.shellProgram) <|
    and_congr (textsField?_eq_some_iff 1 "args" Default.shellArgs) <|
    and_congr (textField?_eq_some_iff 2 "working_dir" Default.workingDir)
      (naturalField?_eq_some_iff 3 "max_sessions" Default.maxSessions)
  cases s.shell
  simp [ofFields?, Option.bind_eq_some_iff]

lemma UpdateSection.ofFields?_eq_some_iff :
    ofFields? (.named es) = some s.update ↔
      s.Follows es .updateEnabled ∧ s.Follows es .packageDir ∧ s.Follows es .checkIntervalSecs ∧
        s.Follows es .engineClient ∧ s.Follows es .rebootCommand := by
  refine Iff.trans ?_ <|
    and_congr (booleanField?_eq_some_iff 0 "enabled" Default.updateEnabled) <|
    and_congr (textField?_eq_some_iff 1 "package_dir" Default.packageDir) <|
    and_congr (naturalField?_eq_some_iff 2 "check_interval_secs" Default.checkIntervalSecs) <|
    and_congr (textField?_eq_some_iff 3 "engine_client" Default.engineClient)
      (textsField?_eq_some_iff 4 "reboot_command" Default.rebootCommand)
  cases s.update
  simp [ofFields?, Option.bind_eq_some_iff, -Bool.exists_bool]

lemma LoggingSection.ofFields?_eq_some_iff :
    ofFields? (.named es) = some s.logging ↔ s.Follows es .logLevel := by
  refine Iff.trans ?_ (textField?_eq_some_iff 0 "level" Default.logLevel)
  cases s.logging
  simp [ofFields?, Option.bind_eq_some_iff]

/-! ## Reading documents -/

lemma ofEntries?_eq_some_iff_sections (htables : HasTables entries) :
    ofEntries? entries = some s ↔
      ServerSection.ofFields? (.named (sectionEntries entries "server")) = some s.server ∧
      DeviceSection.ofFields? (.named (sectionEntries entries "device")) = some s.device ∧
      AuthSection.ofFields? (.named (sectionEntries entries "auth")) = some s.auth ∧
      ManagementSection.ofFields? (.named (sectionEntries entries "management")) =
        some s.management ∧
      ShellSection.ofFields? (.named (sectionEntries entries "shell")) = some s.shell ∧
      UpdateSection.ofFields? (.named (sectionEntries entries "update")) = some s.update ∧
      LoggingSection.ofFields? (.named (sectionEntries entries "logging")) = some s.logging := by
  have htable (key : Key) (place : String) (hplace : key.entry.place = place) (v : Value)
      (hmem : (place, v) ∈ entries) : ∃ es, v = .table es := htables key v (hplace ▸ hmem)
  unfold ofEntries?
  dsimp only
  rw [read_section?_eq (htable .serverUrl "server" rfl) (by rfl),
    read_section?_eq (htable .macAddress "device" rfl) (by rfl),
    read_section?_eq (htable .tokenGraceMs "auth" rfl) (by rfl),
    read_section?_eq (htable .backoffMinMs "management" rfl) (by rfl),
    read_section?_eq (htable .shellProgram "shell" rfl) (by rfl),
    read_section?_eq (htable .updateEnabled "update" rfl) (by rfl),
    read_section?_eq (htable .logLevel "logging" rfl) (by rfl)]
  cases s
  simp [Option.bind_eq_some_iff]

/-- **Settings of documents.**  Every setting has the value that the document gives it, and else
its initial value. -/
theorem ofEntries?_eq_some_iff (htables : HasTables entries) :
    ofEntries? entries = some s ↔
      ∀ key, s.value? key = (given? entries key).or key.entry.initial := by
  rw [ofEntries?_eq_some_iff_sections htables, ServerSection.ofFields?_eq_some_iff,
    DeviceSection.ofFields?_eq_some_iff, AuthSection.ofFields?_eq_some_iff,
    ManagementSection.ofFields?_eq_some_iff, ShellSection.ofFields?_eq_some_iff,
    UpdateSection.ofFields?_eq_some_iff, LoggingSection.ofFields?_eq_some_iff]
  constructor
  · rintro ⟨hurl, ⟨hmac, htype, hversion, hpath, hbits⟩, ⟨hgrace, htimeout⟩,
      ⟨hmin, hmax, hping, hreset⟩, ⟨hprogram, hargs, hdir, hsessions⟩,
      ⟨henabled, hpackages, hinterval, hengine, hreboot⟩, hlevel⟩ key
    cases key <;> assumption
  · intro h
    exact ⟨h .serverUrl,
      ⟨h .macAddress, h .deviceType, h .softwareVersion, h .keyPath, h .keyBits⟩,
      ⟨h .tokenGraceMs, h .requestTimeoutMs⟩,
      ⟨h .backoffMinMs, h .backoffMaxMs, h .pingIntervalSecs, h .resetBackoffOnConnect⟩,
      ⟨h .shellProgram, h .shellArgs, h .workingDir, h .maxSessions⟩,
      ⟨h .updateEnabled, h .packageDir, h .checkIntervalSecs, h .engineClient, h .rebootCommand⟩,
      h .logLevel⟩

/-- **Accepted documents.**  There are settings for a document exactly if the values that it gives
have the types of the settings. -/
theorem exists_ofEntries?_iff (hwf : (Value.table entries).WellFormed)
    (htables : HasTables entries) :
    (∃ s, ofEntries? entries = some s) ↔ IsTyped entries := by
  constructor
  · rintro ⟨s, hs⟩ key v hgives
    rw [ofEntries?_eq_some_iff htables] at hs
    refine admits_of_value? (hgives.wellFormed hwf) (s := s) ?_
    rw [hs key, (given?_eq_some_iff hwf).mpr hgives]
    rfl
  · intro h
    simp only [ofEntries?_eq_some_iff htables]
    exact exists_value?_eq fun key v hv => h key v ((given?_eq_some_iff hwf).mp hv)

end FleetAgent.Settings
