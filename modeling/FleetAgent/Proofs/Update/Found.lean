/-
# What is found in an archive

Nothing is assumed of the bytes of the archive.  If a payload is found, a walk has gone along the
chain of entries to its end, and all that is told of the payload is told by this chain
(`specOf_chain`): its place is that of the last entry of its name, and the properties are the lines
of all that the last entry of properties holds (`HoldsLines`), or the default if there is none.

The default may also stand in an archive.  So that the default is found does not mean that there is
no entry of properties (`default_written`).
-/
import FleetAgent.Archive.Writer
import FleetAgent.Proofs.Update.Properties

namespace FleetAgent.Update.Payload

open FleetAgent.Archive

/-- An entry holds some lines: they are those of all that its data holds. -/
def HoldsLines (archive : List UInt8) (e : Entry) (lines : List String) : Prop :=
  ∃ bytes, IsWhole archive e bytes ∧
    Text.Lines '\n' '\r' (Text.Utf8.decodeLossyChars bytes) (lines.map String.toList)

section

variable {archive : List UInt8} {e : Entry} {es : List (Nat × Entry)} {x : Nat × Entry}
  {lines : List String} {found : Found} {spec : PayloadSpec} {path : String}

lemma HoldsLines.unique {other : List String} (h : HoldsLines archive e lines)
    (h' : HoldsLines archive e other) : lines = other := by
  obtain ⟨bytes, hwhole, hlines⟩ := h
  obtain ⟨_, hwhole', hlines'⟩ := h'
  obtain rfl := hwhole.unique hwhole'
  have hsame := (hlines.linesBy_eq (by decide)).symm.trans (hlines'.linesBy_eq (by decide))
  exact List.map_injective_iff.mpr (fun _ _ => String.toList_inj.mp) hsame

lemma IsLastNamed.mem {name : String} (h : IsLastNamed archive name es x) : x ∈ es := by
  obtain ⟨-, before, after, rfl, -⟩ := h
  exact List.mem_append_right _ List.mem_cons_self

/-- The data of an entry that is named as the payload begins behind a header and eleven bytes. -/
lemma le_dataOffset {directory : Except Failure Directory} (h : e.StandsAt archive directory x.1)
    (hname : nameAt archive x.1 = Text.Utf8.encode payloadName) : 41 ≤ e.dataOffset := by
  have hlength := h.length_name
  rw [hname, show (Text.Utf8.encode payloadName).length = 11 by decide] at hlength
  rw [h.dataOffset_eq, ← hlength, headerLength]
  omega

/-! ## Properties -/

/-- The properties that are found stand in the last entry of properties, or are the default. -/
lemma Tells.properties (h : Tells archive es found) :
    (∀ x, IsLastNamed archive propertiesName es x →
        HoldsLines archive x.2 (found.properties.getD defaultProperties)) ∧
      ((∀ x ∈ es, nameAt archive x.1 ≠ Text.Utf8.encode propertiesName) →
        found.properties.getD defaultProperties = defaultProperties) := by
  constructor
  · intro x hx
    obtain ⟨bytes, hbytes, hproperties⟩ := h.properties_some x (lastNamed?_eq_some_iff.mpr hx)
    rw [hproperties]
    exact ⟨bytes, (propertyBytes_eq_ok hbytes).1, lines_propertyLines bytes⟩
  · intro hnone
    rw [h.properties_none (lastNamed?_eq_none_iff.mpr hnone)]
    rfl

/-- The default is found if there is no entry of properties, or the last one holds the default. -/
lemma Tells.properties_eq_default_iff (h : Tells archive es found) :
    found.properties.getD defaultProperties = defaultProperties ↔
      (∀ x ∈ es, nameAt archive x.1 ≠ Text.Utf8.encode propertiesName) ∨
        ∃ x, IsLastNamed archive propertiesName es x ∧
          HoldsLines archive x.2 defaultProperties := by
  obtain ⟨hlines, hnone⟩ := h.properties
  constructor
  · intro hdefault
    cases hlast : lastNamed? archive propertiesName es with
    | none => exact .inl (lastNamed?_eq_none_iff.mp hlast)
    | some x =>
      have hx := lastNamed?_eq_some_iff.mp hlast
      exact .inr ⟨x, hx, hdefault ▸ hlines x hx⟩
  · rintro (hother | ⟨x, hx, hdefault⟩)
    · exact hnone hother
    · exact (hlines x hx).unique hdefault

/-! ## Main result -/

/-- A payload that is found is the last entry of its name, in an archive of which all is known. -/
lemma exists_tells_of_specOf (h : specOf path archive = .ok spec) : ∃ found es stop,
    Chain archive (Directory.ofArchive archive) 0 es stop ∧
    (archive.length < stop + 4 ∨ numberAt archive stop 4 ≠ entrySignature) ∧
    Tells archive es found ∧ spec.properties = found.properties.getD defaultProperties ∧
    ∃ x, IsLastNamed archive payloadName es x ∧
      spec.offset = x.2.dataOffset ∧ spec.size = x.2.storedSize := by
  obtain ⟨found, hfind, hpayload, hproperties⟩ := specOf_eq_ok h
  obtain ⟨es, stop, hchain, hstop, htells⟩ := find_eq_ok hfind
  rw [htells.payload_eq] at hpayload
  obtain ⟨x, hx, hplace⟩ := Option.map_eq_some_iff.mp hpayload
  obtain ⟨hoffset, hsize⟩ := Prod.mk.inj hplace
  exact ⟨found, es, stop, hchain, hstop, htells, hproperties, x, lastNamed?_eq_some_iff.mp hx,
    hoffset.symm, hsize.symm⟩

/-- No payload is found only if the walk has come to the end of the archive. -/
lemma find_of_specOf_not_found (h : specOf path archive = .error .payloadNotFound) :
    ∃ found, find archive = .ok found ∧ found.payload = none := by
  rw [specOf] at h
  split at h
  · next e hfind => cases e <;> cases h
  next found hfind =>
  split at h
  next hpayload => exact ⟨found, hfind, hpayload⟩
  · cases h

end

/-- **What is found in an archive.**  Whatever the bytes of an archive are, if a payload is found,
the archive is a chain of entries from its start to a position where less than four bytes remain or
no entry begins.  The positions of the entries grow, and their data lies inside the archive.  The
payload is the data of the last entry whose name has the bytes of `payload.bin`; every entry of this
name is stored.  If an entry is named as the properties, the properties are the lines of all that
the last such entry holds.  They are the default exactly if no entry is named so, or if this is just
what the last such entry holds.  If no payload is found, the archive is such a chain without an
entry of this name. -/
theorem specOf_chain (path : String) (archive : List UInt8) :
    (∀ spec, specOf path archive = .ok spec → ∃ es stop,
      Chain archive (Directory.ofArchive archive) 0 es stop ∧
      (es.map Prod.fst ++ [stop]).Pairwise (· < ·) ∧
      (∀ x ∈ es, x.2.dataOffset + x.2.storedSize ≤ archive.length) ∧
      (archive.length < stop + 4 ∨ numberAt archive stop 4 ≠ entrySignature) ∧
      (∃ x, IsLastNamed archive "payload.bin" es x ∧
        spec.offset = x.2.dataOffset ∧ spec.size = x.2.storedSize) ∧
      (∀ x ∈ es, nameAt archive x.1 = Text.Utf8.encode "payload.bin" → x.2.method = 0) ∧
      41 ≤ spec.offset ∧ spec.offset + spec.size ≤ archive.length ∧
      (∀ x, IsLastNamed archive "payload_properties.txt" es x →
        HoldsLines archive x.2 spec.properties) ∧
      (spec.properties = ["SWITCH_SLOT_ON_REBOOT=1"] ↔
        (∀ x ∈ es, nameAt archive x.1 ≠ Text.Utf8.encode "payload_properties.txt") ∨
          ∃ x, IsLastNamed archive "payload_properties.txt" es x ∧
            HoldsLines archive x.2 ["SWITCH_SLOT_ON_REBOOT=1"])) ∧
      (specOf path archive = .error .payloadNotFound → ∃ found es stop,
        find archive = .ok found ∧ Chain archive (Directory.ofArchive archive) 0 es stop ∧
        (archive.length < stop + 4 ∨ numberAt archive stop 4 ≠ entrySignature) ∧
        ∀ x ∈ es, nameAt archive x.1 ≠ Text.Utf8.encode "payload.bin") := by
  refine ⟨fun spec h => ?_, fun h => ?_⟩
  · obtain ⟨found, es, stop, hchain, hstop, htells, hproperties, x, hlast, hoffset, hsize⟩ :=
      exists_tells_of_specOf h
    obtain ⟨hstands, hinside⟩ := hchain.standsAt hlast.mem
    refine ⟨es, stop, hchain, hchain.pairwise_lt.1, fun y hy => (hchain.standsAt hy).2, hstop,
      ⟨x, hlast, hoffset, hsize⟩, htells.stored, ?_, ?_, ?_, ?_⟩
    · rw [hoffset]
      exact le_dataOffset hstands hlast.1
    · rw [hoffset, hsize]
      exact hinside
    · rw [hproperties]
      exact htells.properties.1
    · rw [hproperties]
      exact htells.properties_eq_default_iff
  · obtain ⟨found, hfind, hpayload⟩ := find_of_specOf_not_found h
    obtain ⟨es, stop, hchain, hstop, htells⟩ := find_eq_ok hfind
    rw [htells.payload_eq, Option.map_eq_none_iff] at hpayload
    exact ⟨found, es, stop, hfind, hchain, hstop, lastNamed?_eq_none_iff.mp hpayload⟩

/-- A package in which the payload and the properties stand twice, with an entry in front of the
last properties that is neither. -/
def repeatedPackage : List UInt8 :=
  archiveOf [.stored (Text.Utf8.encode propertiesName) (Text.Utf8.encode "A=0\n"),
    .stored (Text.Utf8.encode payloadName) [9],
    .stored (Text.Utf8.encode payloadName) [1, 2, 3],
    .stored (Text.Utf8.encode "notes.txt") [0],
    .stored (Text.Utf8.encode propertiesName) (Text.Utf8.encode "A=1\r\nB=2")]

/-- In this package the last payload and the last properties are found, and nothing is found in an
archive without bytes. -/
theorem specOf_chain_sample :
    (∃ es stop x y, Chain repeatedPackage (Directory.ofArchive repeatedPackage) 0 es stop ∧
      IsLastNamed repeatedPackage "payload.bin" es x ∧
      x.2.dataOffset = 139 ∧ x.2.storedSize = 3 ∧
      IsLastNamed repeatedPackage "payload_properties.txt" es y ∧
      HoldsLines repeatedPackage y.2 ["A=1", "B=2"]) ∧
      ∃ es stop, Chain [] (Directory.ofArchive []) 0 es stop ∧
        ∀ x ∈ es, nameAt [] x.1 ≠ Text.Utf8.encode "payload.bin" := by
  have hspec : specOf "/data/ota.zip" repeatedPackage
      = .ok ⟨"file:///data/ota.zip", 139, 3, ["A=1", "B=2"]⟩ := by decide +kernel
  have hempty : specOf "/data/ota.zip" [] = .error .payloadNotFound := by decide +kernel
  obtain ⟨es, stop, hchain, -, -, -, ⟨x, hlast, hoffset, hsize⟩, -, -, -, hlines, hdefault⟩ :=
    (specOf_chain "/data/ota.zip" repeatedPackage).1 _ hspec
  obtain ⟨-, es', stop', -, hchain', -, hnone⟩ :=
    (specOf_chain "/data/ota.zip" []).2 hempty
  -- other properties than the default come from an entry
  obtain ⟨y, hy⟩ : ∃ y, lastNamed? repeatedPackage propertiesName es = some y := by
    refine Option.ne_none_iff_exists'.mp fun hnone => ?_
    exact absurd (hdefault.mpr (.inl (lastNamed?_eq_none_iff.mp hnone))) (by decide)
  have hy := lastNamed?_eq_some_iff.mp hy
  exact ⟨⟨es, stop, x, y, hchain, hlast, hoffset.symm, hsize.symm, hy, hlines y hy⟩,
    es', stop', hchain', hnone⟩

/-- A package whose properties are written, and are the default. -/
def defaultPackage : List UInt8 :=
  archiveOf [.stored (Text.Utf8.encode payloadName) [1, 2, 3],
    .stored (Text.Utf8.encode propertiesName) (Text.Utf8.encode "SWITCH_SLOT_ON_REBOOT=1")]

/-- The default is found in this package, although the chain of its entries has an entry of
properties. -/
theorem default_written :
    ∃ spec, specOf "/data/ota.zip" defaultPackage = .ok spec ∧ ∀ es stop,
      Chain defaultPackage (Directory.ofArchive defaultPackage) 0 es stop →
      (defaultPackage.length < stop + 4 ∨ numberAt defaultPackage stop 4 ≠ entrySignature) →
      ¬(spec.properties = ["SWITCH_SLOT_ON_REBOOT=1"] ↔
        ∀ x ∈ es, nameAt defaultPackage x.1 ≠ Text.Utf8.encode "payload_properties.txt") := by
  have hfind : find defaultPackage
      = .ok ⟨some (41, 3), some ["SWITCH_SLOT_ON_REBOOT=1"]⟩ := by decide +kernel
  refine ⟨⟨"file:///data/ota.zip", 41, 3, ["SWITCH_SLOT_ON_REBOOT=1"]⟩, ?_, ?_⟩
  · rw [specOf, hfind]
    rfl
  · intro es stop hchain hstop hiff
    obtain ⟨walked, stop', hwalked, hstop', htells⟩ := find_eq_ok hfind
    rw [← Nat.not_le, ← not_and_or] at hstop hstop'
    obtain ⟨rfl, -⟩ := hchain.unique hwalked hstop hstop'
    cases htells.properties_none (lastNamed?_eq_none_iff.mpr (hiff.mp rfl))

end FleetAgent.Update.Payload
