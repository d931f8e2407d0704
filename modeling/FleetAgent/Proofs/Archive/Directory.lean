/-
# The directory of a written archive

Reading the directory of an archive gives back what its members say of themselves: their titles
and sizes, the last member first (`ofArchive_archiveOf`).  The end record is found because no
other end record has room behind its beginning, and each record is read where the one before
it ends.
-/
import FleetAgent.Proofs.Archive.Member
import FleetAgent.Proofs.Archive.WrittenRecord

namespace FleetAgent.Archive

/-! ## The end record -/

/-- An end record takes up at least `endLength` bytes. -/
lemma beginsEnd_eq_false {bs : List UInt8} (h : bs.length < endLength) :
    beginsEnd bs = false := by
  unfold beginsEnd
  split
  · rename_i rest
    have hshort : rest.length ≤ endLength - 5 := by
      simp only [List.length_cons, endLength] at h ⊢
      omega
    rw [List.drop_eq_nil_of_le hshort]
    rfl
  · rfl

lemma lastEndFrom_short {bs : List UInt8} (i : Nat) (found : Option Nat)
    (h : bs.length < endLength) : lastEndFrom bs i found = found := by
  induction bs generalizing i with
  | nil => rfl
  | cons b bs ih =>
    rw [lastEndFrom, beginsEnd_eq_false h]
    exact ih (i + 1) (by simp only [List.length_cons] at h; omega)

/-- An end record without a comment is the last one, whatever stands in front of it. -/
lemma lastEndFrom_append (before record : List UInt8) (i : Nat) (found : Option Nat)
    (hbegins : beginsEnd record = true) (hlen : record.length = endLength) :
    lastEndFrom (before ++ record) i found = some (i + before.length) := by
  induction before generalizing i found with
  | nil =>
    cases record with
    | nil => exact absurd hlen (by decide)
    | cons b bs =>
      rw [List.nil_append, lastEndFrom, hbegins]
      exact lastEndFrom_short _ _ (by simp only [List.length_cons] at hlen; omega)
  | cons b before ih =>
    rw [List.cons_append, lastEndFrom, ih, List.length_cons]
    congr 1
    omega

lemma length_endRecord (count size offset : Nat) (comment : List UInt8) :
    (endRecord count size offset comment).length = endLength + comment.length := by
  simp [endRecord, endNumbers, endLength]

lemma beginsEnd_endRecord (count size offset : Nat) (comment : List UInt8) :
    beginsEnd (endRecord count size offset comment) = true := by
  have hhead : bytesOf 4 endSignature = [0x50, 0x4b, 0x05, 0x06] := by decide
  rw [endRecord, endNumbers, fields_cons, hhead]
  simp [beginsEnd, fields_cons, endLength, bytesOf]

/-- The directory's place is read from the end record when both of its numbers are narrow. -/
lemma directoryExtent_append (before : List UInt8) (count size offset : Nat)
    (hsize : size < saturated) (hoffset : offset < saturated)
    (hfile : (before ++ endRecord count size offset []).length < Numeral.signed64End) :
    directoryExtent (before ++ endRecord count size offset []) = .ok (offset, size) := by
  have hrecord : (endRecord count size offset []).length = endLength := length_endRecord _ _ _ _
  have hlen : (before ++ endRecord count size offset []).length = before.length + endLength := by
    rw [List.length_append, hrecord]
  -- the tail that is looked at is the end record with some of the bytes in front of it
  obtain ⟨k, hk⟩ : ∃ k, min (before.length + endLength) (endLength + maxComment) = k := ⟨_, rfl⟩
  have hlower : endLength ≤ k :=
    hk ▸ Nat.le_min.mpr ⟨Nat.le_add_left _ _, Nat.le_add_right _ _⟩
  have hupper : k ≤ before.length + endLength := hk ▸ Nat.min_le_left _ _
  obtain ⟨front, shown, hbefore, hfront⟩ : ∃ front shown, before = front ++ shown ∧
      front.length = before.length + endLength - k :=
    ⟨before.take (before.length + endLength - k), before.drop (before.length + endLength - k),
      (List.take_append_drop _ _).symm, by rw [List.length_take]; omega⟩
  have htail : StandsAt (before ++ endRecord count size offset []) front.length
      (shown ++ endRecord count size offset []) :=
    ⟨front, [], by rw [hbefore]; simp, rfl⟩
  have htailLength : (shown ++ endRecord count size offset []).length = k := by
    have hsplit : before.length = front.length + shown.length := by
      rw [hbefore, List.length_append]
    rw [List.length_append, hrecord]
    omega
  have hread : read (before ++ endRecord count size offset []) (before.length + endLength - k) k
      (before.length + endLength) = .ok (shown ++ endRecord count size offset []) := by
    rw [← hfront, ← htailLength]
    exact read_eq_of_standsAt htail (htailLength ▸ hupper) (by rw [hlen] at hfile; omega)
  have hlast : lastEnd? (shown ++ endRecord count size offset []) = some shown.length := by
    rw [lastEnd?, lastEndFrom_append _ _ _ _ (beginsEnd_endRecord _ _ _ _) hrecord, Nat.zero_add]
  have hat : StandsAt (shown ++ endRecord count size offset []) shown.length
      (fields (endNumbers count size offset 0) ++ []) :=
    ⟨shown, [], by simp [endRecord], rfl⟩
  have hfieldSize : field (shown ++ endRecord count size offset []) (shown.length + 12) 4
      = .ok size := by
    have h := field_of_fields hat 4 rfl
    rwa [Nat.mod_eq_of_lt (Nat.lt_trans hsize (by decide))] at h
  have hfieldOffset : field (shown ++ endRecord count size offset []) (shown.length + 16) 4
      = .ok offset := by
    have h := field_of_fields hat 5 rfl
    rwa [Nat.mod_eq_of_lt (Nat.lt_trans hoffset (by decide))] at h
  have hlong : ¬ before.length + endLength < endLength := by omega
  simp only [directoryExtent, hlen, hlong, if_false, hk, hread, hlast, hfieldSize, hfieldOffset,
    bind, Except.bind]
  rw [if_pos ⟨Nat.ne_of_lt hoffset, Nat.ne_of_lt hsize⟩]

/-! ## The records -/

/-- The record of a member whose entry stands at `offset`, in its parts. -/
def Member.written (m : Member) (offset : Nat) : WrittenRecord where
  head := fields [(2, 20), (2, 20), (2, m.flags), (2, m.method), (4, 0), (4, m.checksum)]
  compressed := narrow m.data.length
  uncompressed := narrow m.plainSize
  place := fields [(8, 0), (4, offset)]
  name := m.name
  extra := m.fullRecordExtra
  comment := m.comment
  stored := m.data.length

/-- The records of members whose entries stand from `offset` on, in their parts. -/
def writtenFrom : Nat → List Member → List WrittenRecord
  | _, [] => []
  | offset, m :: ms => m.written offset :: writtenFrom (offset + m.bytes.length) ms

lemma bytes_written (m : Member) (offset : Nat) : (m.written offset).bytes = m.record offset := by
  simp [WrittenRecord.bytes, WrittenRecord.numbers, Member.written, Member.record,
    Member.recordNumbers, fields_cons]

lemma recordsOf_writtenFrom (offset : Nat) (ms : List Member) :
    recordsOf (writtenFrom offset ms) = recordsFrom offset ms := by
  induction ms generalizing offset with
  | nil => rfl
  | cons m ms ih =>
    rw [recordsFrom, ← ih, ← bytes_written]
    rfl

/-- What is read of a written record is what the member says of itself. -/
lemma title_sizes_written (m : Member) (offset : Nat) :
    (m.written offset).title = m.title ∧ (m.written offset).sizes = m.sizes := by
  refine ⟨rfl, ?_⟩
  have hwide : (narrow m.data.length == saturated) = isWideSize m.data.length := by
    rw [Bool.eq_iff_iff, beq_iff_eq, narrow_eq_saturated_iff]
  rw [Member.sizes, ← hwide]
  rfl

/-- A record tells the member's stored size, whether it is written narrow or wide. -/
lemma Member.Fits.written {m : Member} (h : m.Fits) (offset : Nat) : (m.written offset).Fits := by
  have hnarrow (n : Nat) : narrow n < 256 ^ 4 :=
    Nat.lt_of_le_of_lt (Nat.min_le_right _ _) (by decide)
  refine ⟨by simp [Member.written], by simp [Member.written], hnarrow _, hnarrow _, h.name,
    h.recordExtra, h.comment, fun hother => ?_, fun hsaturated => ?_⟩
  · have hwide : isWideSize m.data.length = false :=
      Bool.eq_false_iff.mpr (mt narrow_eq_saturated_iff.mpr hother)
    exact (narrow_of_isWideSize hwide).symm
  · have hwide : isWideSize m.data.length = true := narrow_eq_saturated_iff.mp hsaturated
    have hfit : ∀ n ∈ m.wideSizes, n < 256 ^ 8 := by
      intro n hn
      simp only [Member.wideSizes, List.mem_filter, List.mem_cons, List.not_mem_nil, or_false] at hn
      rcases hn.1 with rfl | rfl
      · exact h.plainSize
      · exact h.storedSize
    have hsizes : m.wideSizes
        = if narrow m.plainSize = saturated then [m.plainSize, m.data.length]
          else [m.data.length] := by
      by_cases hplain : isWideSize m.plainSize = true
      · simp [Member.wideSizes, narrow_eq_saturated_iff, hplain, hwide]
      · simp [Member.wideSizes, narrow_eq_saturated_iff, hplain, hwide]
    have hne : m.wideSizes ≠ [] := by
      rw [hsizes]
      split_ifs <;> simp
    exact ⟨m.plainSize, hsizes ▸ holdsWide_wideBlock hne hfit m.recordExtra⟩

/-- What the directory tells about members, the last one first. -/
def directoryOf (ms : List Member) : Directory :=
  (ms.map fun m => (m.title, m.sizes)).reverse

lemma fits_writtenFrom {ms : List Member} (hms : ∀ m ∈ ms, m.Fits) (offset : Nat) :
    ∀ r ∈ writtenFrom offset ms, r.Fits := by
  induction ms generalizing offset with
  | nil => nofun
  | cons m ms ih =>
    obtain ⟨hm, hlater⟩ := List.forall_mem_cons.mp hms
    exact List.forall_mem_cons.mpr ⟨hm.written offset, ih hlater _⟩

lemma map_writtenFrom (offset : Nat) (ms : List Member) :
    (writtenFrom offset ms).map (fun r => (r.title, r.sizes))
      = ms.map fun m => (m.title, m.sizes) := by
  induction ms generalizing offset with
  | nil => rfl
  | cons m ms ih =>
    obtain ⟨htitle, hsizes⟩ := title_sizes_written m offset
    rw [writtenFrom, List.map_cons, List.map_cons, ih, htitle, hsizes]

/-- The records of members tell what the members say of themselves. -/
lemma recordsTell_recordsFrom {ms : List Member} (hms : ∀ m ∈ ms, m.Fits) (offset : Nat) :
    RecordsTell (recordsFrom offset ms) 0 (ms.map fun m => (m.title, m.sizes)) := by
  have htell := recordsTell_recordsOf (fits_writtenFrom hms offset) 0 (standsAt_self _)
    (Nat.zero_add _)
  rwa [map_writtenFrom, recordsOf_writtenFrom] at htell

/-- The directory of a written archive tells what its members say of themselves. -/
theorem ofArchive_archiveOf {ms : List Member} (hms : ∀ m ∈ ms, m.Fits)
    (hsize : (recordsFrom 0 ms).length < saturated) (hoffset : (entriesOf ms).length < saturated) :
    Directory.ofArchive (archiveOf ms) = .ok (directoryOf ms) := by
  have hlen : (archiveOf ms).length
      = (entriesOf ms).length + (recordsFrom 0 ms).length + endLength := by
    rw [archiveOf, archiveWithComment, List.length_append, List.length_append, length_endRecord]
    rfl
  have hfile : (archiveOf ms).length < Numeral.signed64End := by
    simp only [saturated] at hsize hoffset
    simp only [hlen, endLength, Numeral.signed64End]
    omega
  have hextent : directoryExtent (archiveOf ms)
      = .ok ((entriesOf ms).length, (recordsFrom 0 ms).length) :=
    directoryExtent_append _ _ _ _ hsize hoffset hfile
  have hat : StandsAt (archiveOf ms) (entriesOf ms).length (recordsFrom 0 ms) :=
    ⟨entriesOf ms, _, rfl, rfl⟩
  have hinside : ¬ (archiveOf ms).length < (entriesOf ms).length + (recordsFrom 0 ms).length := by
    omega
  have hread : read (archiveOf ms) (entriesOf ms).length (recordsFrom 0 ms).length
      (archiveOf ms).length = .ok (recordsFrom 0 ms) :=
    read_eq_of_standsAt hat (by omega) (by omega)
  have hrecords : directoryFrom (recordsFrom 0 ms) ((recordsFrom 0 ms).length + 1) 0 []
      = .ok (directoryOf ms) := by
    rw [directoryFrom_eq_ok_iff (by omega), directoryOf, List.reverse_reverse]
    exact recordsTell_recordsFrom hms 0
  simp only [Directory.ofArchive, hextent, hinside, if_false, hread, hrecords, bind, Except.bind]

end FleetAgent.Archive
