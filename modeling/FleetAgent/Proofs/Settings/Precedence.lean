/-
# What sets a setting

A setting has the value of its variable in the environment, else that of the document, and else its
initial value (`Resolves`).  The document is that of the file that is named, or of the default file
where it exists; without a file nothing is given (`Finds`).

Settings are loaded if every value that the document gives has the type of its setting; then nothing
but the values that are given, and the variables, has a part in them (`load_precedence`).
-/
import FleetAgent.Proofs.Settings.Document

namespace FleetAgent.Settings

open Toml (Value)

variable {folder : Storage.Folder} {env : Environment} {path : Option String}
  {entries : List (String × Value)} {key own : Key} {name : String} {v : Value}
  {v? : Option Value} {s : Settings}

/-! ## Variables -/

/-- A variable of the environment sets a setting to a value. -/
def Overrides (env : Environment) (key : Key) (v : Value) : Prop :=
  ∃ name text, key.entry.source = some name ∧ env.text? name = some text ∧
    key.entry.kind.Reads text v

/-- The value that a text of the environment stands for. -/
def Kind.read? : Kind → String → Option Value
  | text, s => some (.text s)
  | number, s => (Numeral.unsigned64? s.toList).map fun n : Nat => .integer n
  | flag, _ => none
  | texts, _ => none

lemma Kind.read?_eq_some_iff {kind : Kind} {text : String} :
    kind.read? text = some v ↔ kind.Reads text v := by
  constructor
  · intro h
    cases kind with
    | text =>
      obtain rfl := Option.some.inj h
      exact .text text
    | number =>
      obtain ⟨n, hn, rfl⟩ := Option.map_eq_some_iff.mp h
      exact .number text n (Numeral.unsigned64?_eq_some_iff.mp hn)
    | flag => exact nomatch h
    | texts => exact nomatch h
  · rintro (_ | ⟨_, n, hn⟩)
    · rfl
    · rw [Kind.read?, Numeral.unsigned64?_eq_some_iff.mpr hn]
      rfl

/-- The value that the environment sets a setting to. -/
def override? (env : Environment) (key : Key) : Option Value :=
  key.entry.source.bind fun name => (env.text? name).bind key.entry.kind.read?

lemma override?_eq_some_iff : override? env key = some v ↔ Overrides env key v := by
  simp only [override?, Overrides, Option.bind_eq_some_iff, Kind.read?_eq_some_iff]
  constructor
  · rintro ⟨name, hname, text, htext, hreads⟩
    exact ⟨name, text, hname, htext, hreads⟩
  · rintro ⟨name, text, hname, htext, hreads⟩
    exact ⟨name, hname, text, htext, hreads⟩

/-- The values of the environment come before those of the settings that it overrides. -/
lemma value?_override : (override env s).value? key = (override? env key).or (s.value? key) := by
  have htext (o : Option String) (d : String) :
      some (.text (o.getD d)) = (o.bind Kind.text.read?).or (some (.text d)) := by
    cases o <;> rfl
  have hmac (o d : Option String) :
      (o.or d).map .text = (o.bind Kind.text.read?).or (d.map .text) := by
    cases o <;> rfl
  have hnumber (o : Option String) (d : Nat) :
      some (.integer ((o.bind fun text => Numeral.unsigned64? text.toList).getD d : Nat)) =
        (o.bind Kind.number.read?).or (some (.integer d)) := by
    cases o with
    | none => rfl
    | some text =>
      rw [Option.bind_some, Option.bind_some, Kind.read?]
      cases Numeral.unsigned64? text.toList <;> rfl
  cases key
  case serverUrl => exact htext _ _
  case macAddress => exact hmac _ _
  case keyPath => exact htext _ _
  case maxSessions => exact hnumber _ _
  all_goals rfl

/-- A variable sets one setting only. -/
lemma Key.eq_of_source (hkey : key.entry.source = some name) (hown : own.entry.source = some name) :
    key = own := by
  have hcases {key : Key} (h : key.entry.source = some name) :
      key = .serverUrl ∧ name = "FLEETD_SERVER_URL" ∨
      key = .macAddress ∧ name = "FLEETD_MAC_ADDRESS" ∨
      key = .keyPath ∧ name = "FLEETD_KEY_PATH" ∨
      key = .maxSessions ∧ name = "FLEETD_MAX_SHELLS" := by
    cases key <;> simp_all [entry]
  rcases hcases hkey with ⟨rfl, rfl⟩ | ⟨rfl, rfl⟩ | ⟨rfl, rfl⟩ | ⟨rfl, rfl⟩ <;>
    simpa [eq_comm] using hcases hown

/-! ## Files -/

/-- What is found of settings: the entries of the document in the file, or none without a file. -/
inductive Finds (folder : Storage.Folder) : Option String → List (String × Value) → Prop where
  | named (path : String) (content : List UInt8) (document : String)
      (entries : List (String × Value)) (hread : folder.read path = .ok content)
      (htext : Text.Utf8.decode? content = some document)
      (hdocument : Toml.Document.ofString? document = some entries) :
      Finds folder (some path) entries
  | usual (content : List UInt8) (document : String) (entries : List (String × Value))
      (hexists : (folder.resolve defaultPath).isOk = true)
      (hread : folder.read defaultPath = .ok content)
      (htext : Text.Utf8.decode? content = some document)
      (hdocument : Toml.Document.ofString? document = some entries) : Finds folder none entries
  | absent (hexists : (folder.resolve defaultPath).isOk = false) : Finds folder none []

lemma Finds.wellFormed (h : Finds folder path entries) : (Value.table entries).WellFormed := by
  cases h with
  | named _ _ _ _ _ _ hdocument => exact Toml.Document.wellFormed_ofString? hdocument
  | usual _ _ _ _ _ _ hdocument => exact Toml.Document.wellFormed_ofString? hdocument
  | absent => exact .table [] List.nodup_nil (by simp)

lemma ofFile_eq {file document : String} {content : List UInt8}
    (hread : folder.read file = .ok content) (htext : Text.Utf8.decode? content = some document)
    (hdocument : Toml.Document.ofString? document = some entries) :
    ofFile folder file = (ofEntries? entries).elim (.error (.malformed file)) .ok := by
  have hcontent : (folder.read file).toOption.bind Text.Utf8.decode? = some document := by
    rw [hread]
    exact htext
  rw [ofFile, hcontent]
  dsimp only
  rw [ofDocument?, hdocument, Option.bind_some]
  cases ofEntries? entries <;> rfl

lemma load_eq (h : Finds folder path entries) :
    load folder env path =
      (ofEntries? entries).elim (.error (.malformed (path.getD defaultPath)))
        fun s => .ok (override env s) := by
  unfold load
  cases h with
  | named file content document _ hread htext hdocument =>
    dsimp only
    rw [ofFile_eq hread htext hdocument]
    cases ofEntries? entries <;> rfl
  | usual content document _ hexists hread htext hdocument =>
    dsimp only
    rw [if_pos hexists, ofFile_eq hread htext hdocument]
    cases ofEntries? entries <;> rfl
  | absent hexists =>
    dsimp only
    rw [hexists]
    rfl

lemma load_eq_ok_iff (h : Finds folder path entries) :
    load folder env path = .ok s ↔ ∃ t, ofEntries? entries = some t ∧ override env t = s := by
  rw [load_eq h]
  cases ofEntries? entries <;> simp

/-! ## Settings -/

/-- What sets a setting: its variable, and else the document; a setting that nothing sets has its
initial value. -/
inductive Resolves (entries : List (String × Value)) (env : Environment) (key : Key) :
    Option Value → Prop where
  | overridden (v : Value) (h : Overrides env key v) : Resolves entries env key (some v)
  | given (v : Value) (hfree : ∀ w, ¬ Overrides env key w) (h : Gives entries key v) :
      Resolves entries env key (some v)
  | initial (hfree : ∀ w, ¬ Overrides env key w) (habsent : ∀ w, ¬ Gives entries key w) :
      Resolves entries env key key.entry.initial

lemma resolves_iff (hwf : (Value.table entries).WellFormed) :
    Resolves entries env key v? ↔
      v? = (override? env key).or ((given? entries key).or key.entry.initial) := by
  have hover : (∀ w, ¬ Overrides env key w) ↔ override? env key = none := by
    simp only [← override?_eq_some_iff]
    exact Option.eq_none_iff_forall_ne_some.symm
  have hgiven : (∀ w, ¬ Gives entries key w) ↔ given? entries key = none := by
    simp only [← given?_eq_some_iff hwf]
    exact Option.eq_none_iff_forall_ne_some.symm
  constructor
  · rintro (⟨v, h⟩ | ⟨v, hfree, h⟩ | ⟨hfree, habsent⟩)
    · rw [override?_eq_some_iff.mpr h]
      rfl
    · rw [hover.mp hfree, (given?_eq_some_iff hwf).mpr h]
      rfl
    · rw [hover.mp hfree, hgiven.mp habsent]
      rfl
  · rintro rfl
    cases hv : override? env key with
    | some v => exact .overridden v (override?_eq_some_iff.mp hv)
    | none =>
      cases hw : given? entries key with
      | some w => exact .given w (hover.mpr hv) ((given?_eq_some_iff hwf).mp hw)
      | none => exact .initial (hover.mpr hv) (hgiven.mpr hw)

lemma Resolves.unique {w? : Option Value} (h : Resolves entries env key v?)
    (hwf : (Value.table entries).WellFormed) (h' : Resolves entries env key w?) : v? = w? :=
  ((resolves_iff hwf).mp h).trans ((resolves_iff hwf).mp h').symm

section

variable (hfinds : Finds folder path entries) (htables : HasTables entries)

include hfinds htables

lemma exists_load_iff (env : Environment) :
    (∃ s, load folder env path = .ok s) ↔ IsTyped entries := by
  rw [← exists_ofEntries?_iff hfinds.wellFormed htables]
  simp only [load_eq_ok_iff hfinds]
  constructor
  · rintro ⟨_, s, hs, -⟩
    exact ⟨s, hs⟩
  · rintro ⟨s, hs⟩
    exact ⟨_, s, hs, rfl⟩

lemma value?_load (hload : load folder env path = .ok s) :
    s.value? key =
      (override? env key).or ((given? entries key).or key.entry.initial) := by
  obtain ⟨t, ht, rfl⟩ := (load_eq_ok_iff hfinds).mp hload
  rw [value?_override, (ofEntries?_eq_some_iff htables).mp ht key]

lemma resolves_load (hload : load folder env path = .ok s) :
    Resolves entries env key (s.value? key) :=
  (resolves_iff hfinds.wellFormed).mpr (value?_load hfinds htables hload)

/-- A setting does not depend on the variables of others. -/
lemma value?_load_of_ne {env' : Environment} {s' : Settings} (hown : own.entry.source = some name)
    (henv : ∀ other, other ≠ name → env'.text? other = env.text? other)
    (hload : load folder env path = .ok s) (hload' : load folder env' path = .ok s')
    (hkey : key ≠ own) : s'.value? key = s.value? key := by
  have hoverride : override? env' key = override? env key := by
    refine Option.bind_congr fun other hother => ?_
    rw [henv other]
    rintro rfl
    exact hkey (Key.eq_of_source hother hown)
  rw [value?_load hfinds htables hload, value?_load hfinds htables hload', hoverride]

/-- Settings depend on what is given, not on what else a file holds or on its order. -/
lemma toOption_load_congr {folder' : Storage.Folder} {path' : Option String}
    {entries' : List (String × Value)} (hfinds' : Finds folder' path' entries')
    (htables' : HasTables entries') (h : ∀ key v, Gives entries' key v ↔ Gives entries key v) :
    (load folder' env path').toOption = (load folder env path).toOption := by
  have hgiven (key : Key) : given? entries' key = given? entries key := by
    ext v
    rw [given?_eq_some_iff hfinds'.wellFormed, given?_eq_some_iff hfinds.wellFormed]
    exact h key v
  have hentries : ofEntries? entries' = ofEntries? entries := by
    ext s
    rw [ofEntries?_eq_some_iff htables', ofEntries?_eq_some_iff htables]
    simp only [hgiven]
  rw [load_eq hfinds', load_eq hfinds, hentries]
  cases ofEntries? entries <;> rfl

end

/-- **Precedence.**  Settings are loaded exactly if every value that the document gives a setting
has the type of the setting; otherwise the file is malformed.

The settings are then those of which every one has the value of its variable, else that of the
document, and else its initial value.  Each variable has its own setting and leaves the others
alone, and whether settings are loaded does not depend on it.  Files that give the same values lead
to the same settings, whatever other entries they have and in whichever order. -/
theorem load_precedence (env : Environment) (hfinds : Finds folder path entries)
    (htables : HasTables entries) :
    ((∃ s, load folder env path = .ok s) ↔ IsTyped entries) ∧
    (∀ e, load folder env path = .error e → e = .malformed (path.getD defaultPath)) ∧
    (IsTyped entries → ∀ s,
      load folder env path = .ok s ↔ ∀ key, Resolves entries env key (s.value? key)) ∧
    (∀ own name env', own.entry.source = some name →
      (∀ other, other ≠ name → env'.text? other = env.text? other) →
      ∀ s, load folder env path = .ok s →
        ∃ s', load folder env' path = .ok s' ∧
          ∀ key, key ≠ own → s'.value? key = s.value? key) ∧
    (∀ folder' path' entries', Finds folder' path' entries' → HasTables entries' →
      (∀ key v, Gives entries' key v ↔ Gives entries key v) →
      (load folder' env path').toOption = (load folder env path).toOption) := by
  have hexists := exists_load_iff hfinds htables
  refine ⟨hexists env, ?_, ?_, ?_, ?_⟩
  · intro e hload
    rw [load_eq hfinds] at hload
    cases hentries : ofEntries? entries with
    | none =>
      rw [hentries] at hload
      exact (Except.error.inj hload).symm
    | some s =>
      rw [hentries] at hload
      exact nomatch hload
  · intro htyped s
    constructor
    · intro hload key
      exact resolves_load hfinds htables hload
    · intro h
      obtain ⟨t, hload⟩ := (hexists env).mpr htyped
      obtain rfl : t = s := by
        refine eq_of_value? fun key => ?_
        exact (resolves_load hfinds htables hload).unique hfinds.wellFormed (h key)
      exact hload
  · intro own name env' hown henv s hload
    obtain ⟨s', hload'⟩ := (hexists env').mpr ((hexists env).mp ⟨s, hload⟩)
    refine ⟨s', hload', ?_⟩
    intro key hkey
    exact value?_load_of_ne hfinds htables hown henv hload hload' hkey
  · intro folder' path' entries' hfinds' htables' hgives
    exact toOption_load_congr hfinds htables hfinds' htables' hgives

/-- A document with two sections and an entry that is not known. -/
def sampleDocument : String :=
  "[shell]\nmax_sessions = 3\ncolor = \"none\"\n\n[server]\nurl = \"https://fleet\"\n"

/-- The entries of the document. -/
def sampleEntries : List (String × Value) := (Toml.Document.ofString? sampleDocument).getD []

/-- A folder with the document as the default file. -/
def sampleFolder : Storage.Folder :=
  ⟨"/", [(["fleetd.toml"], .file (Text.Utf8.encode sampleDocument))]⟩

/-- A number of shells, and an address that is not Unicode. -/
def sampleEnvironment : Environment :=
  [("FLEETD_MAX_SHELLS", Text.Utf8.encode "+4"), ("FLEETD_SERVER_URL", [0xff])]

/-- Settings of which one is from the document and one from the environment. -/
def sampleSettings : Settings := { server.url := "https://fleet", shell.maxSessions := 4 }

/-- The document is loaded, and its settings are the same but for one whatever the number of shells
in the environment. -/
theorem load_precedence_sample :
    Finds sampleFolder none sampleEntries ∧ HasTables sampleEntries ∧
    load sampleFolder sampleEnvironment none = .ok sampleSettings ∧
    ∀ env' : Environment,
      (∀ other, other ≠ "FLEETD_MAX_SHELLS" →
        env'.text? other = sampleEnvironment.text? other) →
      ∃ s, load sampleFolder env' none = .ok s ∧
        ∀ key, key ≠ .maxSessions → s.value? key = sampleSettings.value? key := by
  have hdocument : Toml.Document.ofString? sampleDocument = some sampleEntries := by
    have hsome : (Toml.Document.ofString? sampleDocument).isSome := by decide +kernel
    obtain ⟨entries, hentries⟩ := Option.isSome_iff_exists.mp hsome
    rw [sampleEntries, hentries, Option.getD_some]
  have hfinds : Finds sampleFolder none sampleEntries :=
    .usual (Text.Utf8.encode sampleDocument) sampleDocument sampleEntries (by decide +kernel)
      (by decide +kernel) (by decide +kernel) hdocument
  have htables : HasTables sampleEntries := hasTables_of_all (by decide +kernel)
  have hload : load sampleFolder sampleEnvironment none = .ok sampleSettings := by decide +kernel
  obtain ⟨-, -, -, hothers, -⟩ := load_precedence sampleEnvironment hfinds htables
  exact ⟨hfinds, htables, hload,
    fun env' henv => hothers .maxSessions "FLEETD_MAX_SHELLS" env' rfl henv sampleSettings hload⟩

end FleetAgent.Settings
