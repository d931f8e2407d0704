/-
# The payload of a written package

A package is an archive written from a list of members.  The walk over its entries visits the
members one after another (`walk_entriesOf`), because each entry stops where the member's bytes
end, and it stops at the directory.  So the payload that is found is the data of the last member
with the payload's name, behind the spans of the members before it, and the properties are the
lines of the last member with the name of the properties.

The statement is for archives without wide sizes.  What the reader cannot see in a member with a
descriptor it takes from the directory, under the member's title: there the last member with a
title speaks for all of them.
-/
import FleetAgent.Proofs.Archive.Entry
import FleetAgent.Update.Payload

namespace FleetAgent.Update.Payload

open FleetAgent.Archive

/-! ## What members hold -/

/-- The last member with a title. -/
def lastTitled? (ms : List Member) (title : String) : Option Member :=
  (ms.filter fun m => m.title == title).getLast?

/-- The text that a member holds: its data, or what its data inflates to. -/
def textOf (m : Member) : List UInt8 :=
  if m.method = storedMethod then m.data else (Deflate.inflate inflateLimit m.data).2

/-- A member that can be read as properties: it is stored in at most `maxProperties` bytes, and
if it is deflated, it inflates to at most as many. -/
def IsText (m : Member) : Prop :=
  m.data.length ≤ maxProperties ∧
    (m.method = storedMethod ∨
      m.method = deflatedMethod ∧ (Deflate.inflate inflateLimit m.data).1 = .finished ∧
        (textOf m).length ≤ maxProperties)

/-- The properties in a package. -/
def propertiesIn (ms : List Member) : List String :=
  match lastTitled? ms propertiesName with
  | some m => propertyLines (textOf m)
  | none => defaultProperties

/-- What has been found once the member that stands at a position has been visited. -/
def Found.visitMember (found : Found) (m : Member) (pos : Nat) : Found :=
  if m.title = payloadName then
    { found with payload := some (pos + m.header.length, m.data.length) }
  else if m.title = propertiesName then
    { found with properties := some (propertyLines (textOf m)) }
  else found

/-- What has been found once the members that stand from a position on have been visited. -/
def Found.visitMembers : Found → List Member → Nat → Found
  | found, [], _ => found
  | found, m :: ms, pos => (found.visitMember m pos).visitMembers ms (pos + m.bytes.length)

/-- What keeps a reader from refusing a member: the payload is stored, and the properties can be
read. -/
structure Welcome (m : Member) : Prop where
  payload : m.title = payloadName → m.method = storedMethod
  properties : m.title = propertiesName → IsText m

/-! ## Visiting a member -/

variable {archive : List UInt8} {directory : Except Failure Directory} {pos : Nat} {m : Member}

lemma inflated_textOf (name : String) (hmethod : m.method = deflatedMethod)
    (hfinished : (Deflate.inflate inflateLimit m.data).1 = .finished)
    (hlen : (textOf m).length ≤ maxProperties) : inflated name m.data = .ok (textOf m) := by
  have htext : textOf m = (Deflate.inflate inflateLimit m.data).2 := by
    rw [textOf, hmethod, if_neg (by decide)]
  rw [htext] at hlen ⊢
  rcases hinflate : Deflate.inflate inflateLimit m.data with ⟨stop, out⟩
  rw [hinflate] at hfinished hlen
  simp only at hfinished hlen
  subst hfinished
  simp [inflated, hinflate, Nat.not_lt.mpr hlen]

lemma propertyBytes_entryAt (htext : IsText m) (hat : StandsAt archive pos m.bytes)
    (hfile : archive.length < Numeral.signed64End) :
    propertyBytes archive (m.entryAt pos) = .ok (textOf m) := by
  obtain ⟨hlen, hmethod⟩ := htext
  have hend := hat.length_le
  have hdata : StandsAt archive (pos + m.header.length) m.data := by
    rw [Member.bytes, List.append_assoc] at hat
    exact hat.right.left
  have hread : read archive (pos + m.header.length) m.data.length maxProperties = .ok m.data :=
    read_eq_of_standsAt hdata hlen (Nat.lt_of_le_of_lt
      (Nat.le_trans (Nat.le_add_right _ _) hdata.length_le) hfile)
  rw [propertyBytes, Member.entryAt, if_neg (Nat.not_lt.mpr hlen)]
  simp only [hread, bind, Except.bind]
  rcases hmethod with hstored | ⟨hdeflated, hfinished, hsmall⟩
  · rw [if_pos hstored, textOf, if_pos hstored]
    rfl
  · rw [if_neg (by rw [hdeflated]; decide), if_pos hdeflated]
    exact inflated_textOf m.title hdeflated hfinished hsmall

/-- Visiting the entry of a welcome member finds what the member holds. -/
lemma visit_entryAt (hwelcome : Welcome m) (hat : StandsAt archive pos m.bytes)
    (hfile : archive.length < Numeral.signed64End) (found : Found) :
    found.visit archive (m.entryAt pos) = .ok (found.visitMember m pos) := by
  have htitle : (m.entryAt pos).name = m.title := rfl
  have hmethod : (m.entryAt pos).method = m.method := rfl
  rw [Found.visit, Found.visitMember, htitle, hmethod]
  by_cases hpayload : m.title = payloadName
  · rw [if_pos hpayload, if_pos hpayload, if_pos (hwelcome.payload hpayload)]
    rfl
  · rw [if_neg hpayload, if_neg hpayload]
    by_cases hproperties : m.title = propertiesName
    · rw [if_pos hproperties, if_pos hproperties,
        propertyBytes_entryAt (hwelcome.properties hproperties) hat hfile]
      rfl
    · rw [if_neg hproperties, if_neg hproperties]
      rfl

/-- One step of the walk visits the member that stands there and goes to the end of its
bytes. -/
lemma step_member (hfits : m.Fits) (hwelcome : Welcome m) (hat : StandsAt archive pos m.bytes)
    (hfile : archive.length < Numeral.signed64End)
    (hlisted : m.isDescribed = true → Listed directory m) (found : Found) :
    step archive directory pos found
      = .ok (pos + m.bytes.length, found.visitMember m pos) := by
  have hend := hat.length_le
  have hlen : m.bytes.length = m.header.length + m.data.length + m.descriptor.length := by
    rw [Member.bytes, List.length_append, List.length_append]
  have hheader : StandsAt archive pos m.header := by
    rw [Member.bytes, List.append_assoc] at hat
    exact hat.left
  have hentry := ofArchive_entryAt hfits hheader hfile hlisted
  have hinside : ¬ archive.length < (m.entryAt pos).dataOffset + (m.entryAt pos).storedSize := by
    simp only [Member.entryAt]
    omega
  have hvisit := visit_entryAt hwelcome hat hfile found
  have hstop := stop_entryAt hat hfile hlisted
  simp only [step, hentry, hinside, if_false, hvisit, bind, Except.bind]
  simp only [Member.entryAt] at hstop ⊢
  simp only [hstop, pure, Except.pure]

/-! ## The walk -/

/-- An entry begins where a member stands. -/
lemma entryBegins_member (hat : StandsAt archive pos m.bytes)
    (hfile : archive.length < Numeral.signed64End) : entryBegins archive pos = .ok true := by
  have hsignature : StandsAt archive pos (bytesOf 4 entrySignature) := by
    rw [Member.bytes, Member.header, Member.headerNumbers, fields_cons] at hat
    simp only [List.append_assoc] at hat
    exact hat.left
  have hend := hsignature.length_le
  rw [length_bytesOf] at hend
  have hadd : add pos 4 = .ok (pos + 4) := add_eq_ok_of_le hend hfile
  have hread := read32_of_standsAt hsignature (by omega)
  have hvalue : entrySignature % 256 ^ 4 = entrySignature := by decide
  rw [hvalue] at hread
  simp [entryBegins, hadd, Nat.not_lt.mpr hend, hread, bind, Except.bind, pure, Except.pure]

/-- No entry begins at the directory. -/
lemma entryBegins_record {offset : Nat} (hat : StandsAt archive pos (m.record offset))
    (hpos : 0 < pos) (hfile : archive.length < Numeral.signed64End) :
    entryBegins archive pos = .ok false := by
  have hsignature : StandsAt archive pos (bytesOf 4 directorySignature) := by
    rw [Member.record, Member.recordNumbers, fields_cons] at hat
    simp only [List.append_assoc] at hat
    exact hat.left
  have hend := hsignature.length_le
  rw [length_bytesOf] at hend
  have hadd : add pos 4 = .ok (pos + 4) := add_eq_ok_of_le hend hfile
  have hread := read32_of_standsAt hsignature (by omega)
  have hvalue : directorySignature % 256 ^ 4 = directorySignature := by decide
  have hother : directorySignature ≠ entrySignature := by decide
  rw [hvalue] at hread
  simp [entryBegins, hadd, Nat.not_lt.mpr hend, hread, hother, Nat.ne_of_gt hpos, bind,
    Except.bind, pure, Except.pure]

/-- The walk visits the members that stand behind each other, up to a position where no entry
begins. -/
lemma walk_entriesOf (hfile : archive.length < Numeral.signed64End) (ms : List Member)
    (hfits : ∀ m ∈ ms, m.Fits) (hwelcome : ∀ m ∈ ms, Welcome m)
    (hlisted : ∀ m ∈ ms, m.isDescribed = true → Listed directory m) :
    ∀ (fuel pos : Nat) (found : Found), ms.length < fuel →
      StandsAt archive pos (entriesOf ms) →
      entryBegins archive (pos + (entriesOf ms).length) = .ok false →
      walk archive directory fuel pos found = .ok (found.visitMembers ms pos) := by
  induction ms with
  | nil =>
    intro fuel pos found hfuel _ hstop
    obtain ⟨fuel, rfl⟩ : ∃ f, fuel = f + 1 := ⟨fuel - 1, by simp at hfuel; omega⟩
    have hstop' : entryBegins archive pos = .ok false := by simpa [entriesOf] using hstop
    simp only [walk, hstop', bind, Except.bind, pure, Except.pure, Found.visitMembers]
    rfl
  | cons m ms ih =>
    intro fuel pos found hfuel hat hstop
    obtain ⟨fuel, rfl⟩ : ∃ f, fuel = f + 1 := ⟨fuel - 1, by simp at hfuel; omega⟩
    have hsplit : entriesOf (m :: ms) = m.bytes ++ entriesOf ms := rfl
    rw [hsplit] at hat hstop
    have hbegins := entryBegins_member hat.left hfile
    have hstep := step_member (hfits m (by simp)) (hwelcome m (by simp)) hat.left hfile
      (hlisted m (by simp)) found
    have hrest := ih (fun m' hm' => hfits m' (by simp [hm']))
      (fun m' hm' => hwelcome m' (by simp [hm']))
      (fun m' hm' => hlisted m' (by simp [hm'])) fuel (pos + m.bytes.length)
      (found.visitMember m pos) (by simp only [List.length_cons] at hfuel; omega) hat.right
      (by rw [List.length_append] at hstop; rwa [Nat.add_assoc])
    simp only [walk, hbegins, hstep, hrest, if_true, bind, Except.bind, Found.visitMembers]

/-! ## The last member with a title -/

lemma lastTitled?_cons (m : Member) (ms : List Member) (title : String) :
    lastTitled? (m :: ms) title
      = (lastTitled? ms title).or (if m.title = title then some m else none) := by
  by_cases htitle : m.title = title
  · simp only [lastTitled?, htitle, List.filter_cons, beq_self_eq_true, if_true,
      List.getLast?_cons]
    cases (ms.filter fun m => m.title == title).getLast? <;> rfl
  · simp [lastTitled?, htitle]

/-- The directory of members tells of a title what the last member with that title tells. -/
lemma sizes?_directoryOf (ms : List Member) (title : String) :
    (directoryOf ms).sizes? title = (lastTitled? ms title).map Member.sizes := by
  induction ms with
  | nil => rfl
  | cons m ms ih =>
    have hcons : directoryOf (m :: ms) = directoryOf ms ++ [(m.title, m.sizes)] := by
      simp [directoryOf]
    rw [Directory.sizes?] at ih ⊢
    rw [hcons, List.lookup_append, ih, lastTitled?_cons]
    by_cases htitle : m.title = title
    · cases lastTitled? ms title <;> simp [htitle]
    · have hother : (title == m.title) = false := by simpa using Ne.symm htitle
      cases lastTitled? ms title <;> simp [List.lookup_cons, hother, htitle]

/-- Among members of which one has a title, there is a last one with it. -/
lemma exists_last_titled {ms : List Member} {title : String} (h : ∃ m ∈ ms, m.title = title) :
    ∃ before m after, ms = before ++ m :: after ∧ m.title = title ∧
      ∀ m' ∈ after, m'.title ≠ title := by
  induction ms with
  | nil => obtain ⟨m, hm, -⟩ := h; exact absurd hm (by simp)
  | cons m ms ih =>
    by_cases hlater : ∃ m' ∈ ms, m'.title = title
    · obtain ⟨before, p, after, rfl, hp, hafter⟩ := ih hlater
      exact ⟨m :: before, p, after, rfl, hp, hafter⟩
    · have hm : m.title = title := by
        obtain ⟨m', hm', htitle⟩ := h
        rcases List.mem_cons.mp hm' with rfl | hmem
        · exact htitle
        · exact absurd ⟨m', hmem, htitle⟩ hlater
      exact ⟨[], m, ms, rfl, hm, fun m' hm' htitle => hlater ⟨m', hm', htitle⟩⟩

/-! ## What the walk has found -/

lemma visitMembers_append (found : Found) (ms ms' : List Member) (pos : Nat) :
    found.visitMembers (ms ++ ms') pos
      = (found.visitMembers ms pos).visitMembers ms' (pos + (entriesOf ms).length) := by
  induction ms generalizing found pos with
  | nil => rfl
  | cons m ms ih =>
    have hlen : (entriesOf (m :: ms)).length = m.bytes.length + (entriesOf ms).length := by
      simp [entriesOf]
    rw [List.cons_append, Found.visitMembers, ih, Found.visitMembers, hlen, Nat.add_assoc]

/-- Members with other names leave the payload alone. -/
lemma payload_visitMembers (found : Found) (ms : List Member) (pos : Nat)
    (h : ∀ m ∈ ms, m.title ≠ payloadName) :
    (found.visitMembers ms pos).payload = found.payload := by
  induction ms generalizing found pos with
  | nil => rfl
  | cons m ms ih =>
    have hm : m.title ≠ payloadName := h m (by simp)
    have hkept : (found.visitMember m pos).payload = found.payload := by
      rw [Found.visitMember, if_neg hm]
      split <;> rfl
    rw [Found.visitMembers, ih _ _ fun m' hm' => h m' (by simp [hm']), hkept]

/-- The payload that is found is the last one. -/
lemma payload_visitMembers_append (found : Found) (before after : List Member) (p : Member)
    (pos : Nat) (hp : p.title = payloadName) (hafter : ∀ m ∈ after, m.title ≠ payloadName) :
    (found.visitMembers (before ++ p :: after) pos).payload
      = some (pos + (entriesOf before).length + p.header.length, p.data.length) := by
  rw [visitMembers_append, Found.visitMembers, payload_visitMembers _ _ _ hafter,
    Found.visitMember, if_pos hp]

/-- The properties that are found are those of the last member with their name. -/
lemma properties_visitMembers (found : Found) (ms : List Member) (pos : Nat) :
    (found.visitMembers ms pos).properties
      = ((lastTitled? ms propertiesName).map fun m => propertyLines (textOf m)).or
        found.properties := by
  induction ms generalizing found pos with
  | nil => rfl
  | cons m ms ih =>
    rw [Found.visitMembers, ih, lastTitled?_cons]
    by_cases hproperties : m.title = propertiesName
    · have hnames : propertiesName ≠ payloadName := by decide
      cases lastTitled? ms propertiesName <;> simp [Found.visitMember, hproperties, hnames]
    · have hkept : (found.visitMember m pos).properties = found.properties := by
        simp only [Found.visitMember, hproperties, if_false]
        split <;> rfl
      rw [hkept, if_neg hproperties, Option.or_none]

/-! ## The payload of a package -/

lemma length_entriesOf_ge (ms : List Member) : ms.length ≤ (entriesOf ms).length := by
  induction ms with
  | nil => simp
  | cons m ms ih =>
    have hlen : (entriesOf (m :: ms)).length = m.bytes.length + (entriesOf ms).length := by
      simp [entriesOf]
    have hm : headerLength ≤ m.bytes.length := by
      rw [Member.bytes, List.length_append, List.length_append, Member.length_header]
      omega
    rw [hlen, List.length_cons]
    simp only [headerLength] at hm
    omega

lemma length_entriesOf_narrow {ms : List Member} (h : ∀ m ∈ ms, m.IsNarrow) :
    (entriesOf ms).length = (ms.map Member.span).sum := by
  induction ms with
  | nil => rfl
  | cons m ms ih =>
    have hlen : (entriesOf (m :: ms)).length = m.bytes.length + (entriesOf ms).length := by
      simp [entriesOf]
    rw [hlen, (h m (by simp)).length_bytes, ih fun m' hm' => h m' (by simp [hm']), List.map_cons,
      List.sum_cons]

/-- The walk over a package visits all its members. -/
lemma find_archiveOf {ms : List Member} (hfits : ∀ m ∈ ms, m.Fits)
    (hwelcome : ∀ m ∈ ms, Welcome m)
    (hlisted : ∀ m ∈ ms, m.isDescribed = true → Listed (Directory.ofArchive (archiveOf ms)) m)
    (hne : ms ≠ []) (hfile : (archiveOf ms).length < Numeral.signed64End) :
    find (archiveOf ms) = .ok (Found.visitMembers ⟨none, none⟩ ms 0) := by
  obtain ⟨m, rest, rfl⟩ := List.exists_cons_of_ne_nil hne
  have hentries : StandsAt (archiveOf (m :: rest)) 0 (entriesOf (m :: rest)) :=
    ⟨[], _, by rw [archiveOf, archiveWithComment, List.append_assoc]; rfl, rfl⟩
  have hrecord : StandsAt (archiveOf (m :: rest)) (entriesOf (m :: rest)).length (m.record 0) :=
    ⟨entriesOf (m :: rest), _, by
      rw [archiveOf, archiveWithComment, recordsFrom, ← List.append_assoc, List.append_assoc], rfl⟩
  have hcount := length_entriesOf_ge (m :: rest)
  have hpositive : 0 < (entriesOf (m :: rest)).length := Nat.lt_of_lt_of_le (by simp) hcount
  have hstop := entryBegins_record hrecord hpositive hfile
  refine walk_entriesOf hfile (m :: rest) hfits hwelcome hlisted _ 0 _ ?_ hentries ?_
  · have hinside := hentries.length_le
    omega
  · rwa [Nat.zero_add]

/-- **The place of the payload in a written package.**  In the archive of narrow members, one of
which is a payload, the payload that is found is the data of the last such member, and the
properties are those of the package.

The directory has to be found only if a member has a descriptor; then its place and its size
must be narrow too, and it must tell the length of every such member under its title. -/
theorem specOf_archiveOf (path : String) (ms : List Member) (hnarrow : ∀ m ∈ ms, m.IsNarrow)
    (hplace : (∃ m ∈ ms, m.isDescribed = true) →
      (entriesOf ms).length < saturated ∧ (recordsFrom 0 ms).length < saturated)
    (hlisted : ∀ m ∈ ms, m.isDescribed = true →
      (lastTitled? ms m.title).map (fun l => l.data.length) = some m.data.length)
    (hfile : (archiveOf ms).length < Numeral.signed64End)
    (hpayload : ∃ m ∈ ms, m.title = payloadName)
    (hstored : ∀ m ∈ ms, m.title = payloadName → m.method = storedMethod)
    (htext : ∀ m ∈ ms, m.title = propertiesName → IsText m) :
    ∃ before p after, ms = before ++ p :: after ∧ p.title = payloadName ∧
      (∀ m ∈ after, m.title ≠ payloadName) ∧
      specOf path (archiveOf ms) = .ok {
        sourceUri := "file://" ++ path
        offset := (before.map Member.span).sum + headerLength + p.name.length + p.extra.length
        size := p.data.length
        properties := propertiesIn ms } ∧
      slice? (archiveOf ms)
        ((before.map Member.span).sum + headerLength + p.name.length + p.extra.length)
        p.data.length = some p.data := by
  obtain ⟨before, p, after, hms, hp, hafter⟩ := exists_last_titled hpayload
  have hne : ms ≠ [] := by
    rw [hms]
    simp
  have hfits : ∀ m ∈ ms, m.Fits := fun m hm => (hnarrow m hm).fits
  have hwelcome : ∀ m ∈ ms, Welcome m := fun m hm => ⟨hstored m hm, htext m hm⟩
  have hdirectory : ∀ m ∈ ms, m.isDescribed = true →
      Listed (Directory.ofArchive (archiveOf ms)) m := by
    intro m hm hdescribed
    obtain ⟨hoffset, hsize⟩ := hplace ⟨m, hm, hdescribed⟩
    obtain ⟨l, hl, hlength⟩ := Option.map_eq_some_iff.mp (hlisted m hm hdescribed)
    refine ⟨⟨_, ofArchive_archiveOf hfits hsize hoffset, ?_⟩, ?_, (hnarrow m hm).unsigned⟩
    · rw [sizes?_directoryOf, hl, Option.map_some, Member.sizes, Member.sizes, hlength]
    · rw [(hnarrow m hm).isWide, Member.isWideSize_eq_false (hnarrow m hm).storedSize]
  have hfind := find_archiveOf hfits hwelcome hdirectory hne hfile
  have hoffset : 0 + (entriesOf before).length + p.header.length
      = (before.map Member.span).sum + headerLength + p.name.length + p.extra.length := by
    have hbefore : ∀ m ∈ before, m.IsNarrow := fun m hm => hnarrow m (by simp [hms, hm])
    rw [length_entriesOf_narrow hbefore, Member.length_header,
      (hnarrow p (by simp [hms])).headerExtra]
    omega
  refine ⟨before, p, after, hms, hp, hafter, ?_, ?_⟩
  · have hplaced := payload_visitMembers_append ⟨none, none⟩ before after p 0 hp hafter
    rw [← hms, hoffset] at hplaced
    have hproperties := properties_visitMembers ⟨none, none⟩ ms 0
    rw [Option.or_none] at hproperties
    have hdefault : (Found.visitMembers ⟨none, none⟩ ms 0).properties.getD defaultProperties
        = propertiesIn ms := by
      rw [hproperties, propertiesIn]
      cases lastTitled? ms propertiesName <;> rfl
    simp only [specOf, hfind, hplaced, hdefault]
  · refine slice?_eq_of_standsAt ⟨entriesOf before ++ p.header, p.descriptor ++ entriesOf after
      ++ recordsFrom 0 ms ++ endRecord ms.length (recordsFrom 0 ms).length (entriesOf ms).length [],
      ?_, by rw [List.length_append, ← hoffset, Nat.zero_add]⟩
    have hentries : entriesOf ms = entriesOf before ++ (p.bytes ++ entriesOf after) := by
      simp [hms, entriesOf]
    rw [archiveOf, archiveWithComment, hentries, Member.bytes]
    simp only [List.append_assoc]

/-- A package whose properties have a descriptor without a signature, and whose payload has an
extra field. -/
def samplePackage : List Member :=
  [{ Member.stored (Text.Utf8.encode propertiesName) (Text.Utf8.encode "A=1\r\nB=2\n") with
      placement := .descriptor false, checksum := 7, comment := [0x50, 0x4b] },
    { Member.stored (Text.Utf8.encode payloadName) [1, 2, 3] with extra := [0xfe, 0xca, 0, 0] }]

/-- The sample package meets the conditions, and its payload stands behind its properties. -/
theorem specOf_samplePackage :
    specOf "/data/ota.zip" (archiveOf samplePackage)
      = .ok ⟨"file:///data/ota.zip", 118, 3, ["A=1", "B=2"]⟩ := by
  have hnarrow : ∀ m ∈ samplePackage, m.IsNarrow := by
    intro m hm
    simp only [samplePackage, List.mem_cons, List.not_mem_nil, or_false] at hm
    rcases hm with rfl | rfl
    · exact ⟨by decide, by decide, by decide, by decide, by decide, by decide, by decide,
        by decide⟩
    · exact ⟨by decide, by decide, by decide, by decide, by decide, by decide, by decide,
        by decide⟩
  have htext : ∀ m ∈ samplePackage, m.title = propertiesName → IsText m := by
    intro m hm hproperties
    simp only [samplePackage, List.mem_cons, List.not_mem_nil, or_false] at hm
    rcases hm with rfl | rfl
    · exact ⟨by decide, Or.inl rfl⟩
    · exact absurd hproperties (by decide)
  obtain ⟨before, p, after, hms, hp, -, hspec, -⟩ := specOf_archiveOf "/data/ota.zip"
    samplePackage hnarrow (fun _ => by decide +kernel) (by decide) (by decide +kernel) (by decide)
    (by decide) htext
  match before with
  | [] =>
    have hfirst : p.title = propertiesName := by
      rw [← (List.cons.inj hms).1]
      decide
    rw [hfirst] at hp
    exact absurd hp (by decide)
  | [first] =>
    obtain ⟨rfl, hrest⟩ := List.cons.inj hms
    obtain ⟨rfl, -⟩ := List.cons.inj hrest
    rw [hspec]
    decide
  | _ :: _ :: _ =>
    have hlength := congrArg List.length hms
    simp [samplePackage] at hlength

end FleetAgent.Update.Payload
